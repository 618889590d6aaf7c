import Sush.Common.Jobs
import Sush.Common.Newtypes

/-!
# Where output is recorded

`OutputDirs` and `JobOutputDir` of `server/src/output.rs`. The base that output is recorded under may
move over the life of a server. The bases before it are kept, as far as there is room, to read old output
from.

A path is the list of its components, which is also how paths are compared. What the file system answers
is given by a function: a base is looked at once, so it does not matter when.
-/

namespace Sush

abbrev PathBuf : Type := List String

def JobOutputStream.asStr : JobOutputStream → String
  | stdout => "stdout"
  | stderr => "stderr"

/-- Maximum number of superseded output directories we keep around to read from. -/
def maxPreviousDirs : ℕ := 4

structure OutputDirs where
  current : PathBuf
  previous : List PathBuf
  maxFsize : UInt64
  deriving DecidableEq

def jobOutputDirIn (base : PathBuf) (jobId : Newtype .truncated) : PathBuf := base ++ ["jobs", jobId.display]

/-- The file for an output stream of a job under some base. -/
def jobOutputPathIn (base : PathBuf) (jobId : Newtype .truncated) (stream : JobOutputStream) : PathBuf :=
  jobOutputDirIn base jobId ++ [stream.asStr]

namespace OutputDirs

def new (current : PathBuf) (maxFsize : UInt64) : OutputDirs := ⟨current, [], maxFsize⟩

/-- Move to a new base, retaining this one to read old output from. -/
def movedTo (d : OutputDirs) (current : PathBuf) (maxFsize : UInt64) : OutputDirs where
  current
  previous := ((if current ≠ d.current then [d.current] else []) ++
    d.previous.filter (· ≠ current)).take maxPreviousDirs
  maxFsize

/-- Every base we may have written output to, most recent first. -/
def bases (d : OutputDirs) : List PathBuf := d.current :: d.previous

def jobOutputDir (d : OutputDirs) (jobId : Newtype .truncated) : PathBuf := jobOutputDirIn d.current jobId

def jobOutputPath (d : OutputDirs) (jobId : Newtype .truncated) (stream : JobOutputStream) : PathBuf :=
  d.jobOutputDir jobId ++ [stream.asStr]

/-- The directories after some moves. -/
def moves (d : OutputDirs) (later : List (PathBuf × UInt64)) : OutputDirs :=
  later.foldl (fun d move => d.movedTo move.1 move.2) d

end OutputDirs

/-- What `metadata` answers. -/
inductive Metadata where
  | found
  | notFound
  /-- Another error. -/
  | failed
  deriving DecidableEq

/-- What `metadata` answers if there are these files and every look at them succeeds. -/
def Metadata.ofFiles (files : PathBuf → Option (List UInt8)) (path : PathBuf) : Metadata :=
  if (files path).isSome then found else notFound

/-- The path recording this job's `stream`, which may be under a base we have since moved away from.
Falls back to the current base. -/
def findJobOutput (metadata : PathBuf → Metadata) (dirs : OutputDirs) (jobId : Newtype .truncated)
    (stream : JobOutputStream) : PathBuf :=
  match dirs.bases.find? fun base => metadata (jobOutputPathIn base jobId stream) ≠ .notFound with
  | some base => jobOutputPathIn base jobId stream
  | none => dirs.jobOutputPath jobId stream

end Sush
