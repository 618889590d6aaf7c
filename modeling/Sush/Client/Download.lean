import Sush.Lib.File
import Sush.Server.Output

/-!
# Downloading output in chunks

`client/src/commands.rs`: to save the output of a job to a file, a client asks for it in ranges
(`jobOutputChunks`) and writes each to its place in the file when it arrives (`byteStreamToFile`). The
requests run in parallel, so the chunks arrive in any order; one is written after the other
(`download`). An answer is a stream of pieces.
-/

namespace Sush

open Lib (File)

/-- A range of output; both ends are included. -/
structure Range where
  start : ℕ
  last : ℕ
  deriving DecidableEq

namespace Range

/-- How many bytes the range is. -/
def len (range : Range) : Option ℕ := (subU64 range.last range.start).bind (addU64 · 1)

/-- The range as a server reads it from the header that the client sends. -/
def request (range : Range) : RangeRequest := ⟨.index range.start, .index range.last⟩

end Range

/-- Why a download failed. -/
inductive DownloadError where
  | lengthMismatch (expected received : ℕ)
  /-- An offset or a length overflowed. -/
  | overflow
  deriving DecidableEq

/-- The range that begins at `start`, and where the next one begins. -/
def nextChunk (len chunkSize start : ℕ) : Option (Range × ℕ) := do
  let last := min (← subU64 (← addU64 start chunkSize) 1) (← subU64 len 1)
  return (⟨start, last⟩, ← addU64 last 1)

/-- The loop of `jobOutputChunks`, for at most `fuel` rounds; it has no answer while it runs. -/
def chunksLoop (len chunkSize : ℕ) : ℕ → ℕ → List Range → Option (Except DownloadError (List Range))
  | 0, start, chunks => if start < len then none else some (.ok chunks)
  | fuel + 1, start, chunks =>
    if start < len then
      match nextChunk len chunkSize start with
      | none => some (.error .overflow)
      | some (range, next) => chunksLoop len chunkSize fuel next (chunks ++ [range])
    else some (.ok chunks)

/-- `job_output_chunks`: the ranges to ask for. -/
def jobOutputChunks (fuel len chunkSize : ℕ) : Option (Except DownloadError (List Range)) :=
  chunksLoop len chunkSize fuel 0 []

/-- The loop of `byteStreamToFile` over the pieces of a stream. -/
def writePieces : File → ℕ → List (List UInt8) → Except DownloadError (File × ℕ)
  | file, n, [] => .ok (file, n)
  | file, n, piece :: pieces =>
    match addU64 n piece.length with
    | none => .error .overflow
    | some n => writePieces (file.writeAll piece) n pieces

/-- `byte_stream_to_file`: write a stream to its place in the file, and check its length. -/
def byteStreamToFile (file : File) (pieces : List (List UInt8)) (range : Range) :
    Except DownloadError (File × ℕ) :=
  match writePieces (file.seek range.start) 0 pieces with
  | .error e => .error e
  | .ok (file, n) =>
    match range.len with
    | none => .error .overflow
    | some expected => if n = expected then .ok (file, n) else .error (.lengthMismatch expected n)

/-- An answer to the request for a range: the pieces of a stream. -/
structure Chunk where
  range : Range
  stream : List (List UInt8)

/-- The loop over the chunks, in the order that they arrive in. -/
def download : File → List Chunk → Except DownloadError File
  | file, [] => .ok file
  | file, chunk :: chunks =>
    match byteStreamToFile file chunk.stream chunk.range with
    | .error e => .error e
    | .ok (file, _) => download file chunks

end Sush
