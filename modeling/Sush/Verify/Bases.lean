import Sush.Lib.Recent
import Sush.Server.OutputDirs

/-!
# The bases output is read from

A move puts the new base in front of the others, and `previous` is cut at its limit. So `bases` is the
beginning of the list of all bases ever used, the most recently used first (`bases_moves`). Output is
looked for in this order, so the most recent base that has it is found.
-/

namespace Sush

namespace OutputDirs

theorem bases_movedTo (d : OutputDirs) (base : PathBuf) (maxFsize : UInt64) :
    (d.movedTo base maxFsize).bases = base :: (d.bases.filter (· ≠ base)).take maxPreviousDirs := by
  simp only [bases, movedTo]
  by_cases hbase : base = d.current
  · rw [if_neg (by simpa using hbase), List.filter_cons_of_neg (by simpa using hbase.symm), List.nil_append]
  · rw [if_pos hbase, List.filter_cons_of_pos (by simpa using Ne.symm hbase), List.singleton_append]

/-- **The bases are those most recently used.** -/
theorem bases_moves (initial : PathBuf) (maxFsize : UInt64) (later : List (PathBuf × UInt64)) :
    ((new initial maxFsize).moves later).bases =
      (Lib.recent (initial :: later.map Prod.fst)).take (maxPreviousDirs + 1) := by
  induction later using List.reverseRecOn with
  | nil => rfl
  | append_singleton later move ih =>
    have hmoves : (new initial maxFsize).moves (later ++ [move]) =
        ((new initial maxFsize).moves later).movedTo move.1 move.2 := by
      rw [moves, List.foldl_append]
      rfl
    rw [hmoves, bases_movedTo, ih, List.map_append, ← List.cons_append]
    exact (Lib.take_recent_concat _ _ _).symm

end OutputDirs

variable {metadata : PathBuf → Metadata} {dirs : OutputDirs} {jobId : Newtype .truncated}
  {stream : JobOutputStream}

theorem findJobOutput_eq {newer older : List PathBuf} {base : PathBuf}
    (hbases : dirs.bases = newer ++ base :: older)
    (hnewer : ∀ b ∈ newer, metadata (jobOutputPathIn b jobId stream) = .notFound)
    (hbase : metadata (jobOutputPathIn base jobId stream) ≠ .notFound) :
    findJobOutput metadata dirs jobId stream = jobOutputPathIn base jobId stream := by
  have hfind : dirs.bases.find?
      (fun base => decide (metadata (jobOutputPathIn base jobId stream) ≠ .notFound)) = some base := by
    rw [hbases, List.find?_append, List.find?_eq_none.2 (fun b hb => by simpa using hnewer b hb),
      Option.none_or, List.find?_cons_of_pos (by simpa using hbase)]
  rw [findJobOutput, hfind]

/-- **Output is read from the most recently used bases.** After any moves the bases are the most recently
used ones, without repetition and the most recent first. A file under one of them is found, under the
most recent base that has it. If the file system fails to say whether a base has the file, that base
is as far as the search goes. -/
theorem output_found_under_recent (initial : PathBuf) (maxFsize : UInt64) (later : List (PathBuf × UInt64))
    (jobId : Newtype .truncated) (stream : JobOutputStream) :
    ((OutputDirs.new initial maxFsize).moves later).bases =
      (Lib.recent (initial :: later.map Prod.fst)).take (maxPreviousDirs + 1) ∧
    ((OutputDirs.new initial maxFsize).moves later).bases.Nodup ∧
    (∀ files : PathBuf → Option (List UInt8),
      (∃ base ∈ ((OutputDirs.new initial maxFsize).moves later).bases,
        (files (jobOutputPathIn base jobId stream)).isSome) →
      ∃ newer base older, ((OutputDirs.new initial maxFsize).moves later).bases = newer ++ base :: older ∧
        (∀ b ∈ newer, files (jobOutputPathIn b jobId stream) = none) ∧
        (files (jobOutputPathIn base jobId stream)).isSome ∧
        findJobOutput (.ofFiles files) ((OutputDirs.new initial maxFsize).moves later) jobId stream =
          jobOutputPathIn base jobId stream) ∧
    (∀ metadata newer base older,
      ((OutputDirs.new initial maxFsize).moves later).bases = newer ++ base :: older →
      (∀ b ∈ newer, metadata (jobOutputPathIn b jobId stream) = Metadata.notFound) →
      metadata (jobOutputPathIn base jobId stream) ≠ .notFound →
      findJobOutput metadata ((OutputDirs.new initial maxFsize).moves later) jobId stream =
        jobOutputPathIn base jobId stream) := by
  have hbases := OutputDirs.bases_moves initial maxFsize later
  refine ⟨hbases, ?_, ?_, ?_⟩
  · rw [hbases]
    exact (Lib.nodup_recent _).sublist (List.take_sublist _ _)
  · intro files hsome
    obtain ⟨newer, base, older, heq, hnewer, hbase⟩ := Lib.exists_most_recent hsome
    have hnone : ∀ b ∈ newer, files (jobOutputPathIn b jobId stream) = none :=
      fun b hb => Option.not_isSome_iff_eq_none.1 (hnewer b hb)
    refine ⟨newer, base, older, heq, hnone, hbase, findJobOutput_eq heq ?_ ?_⟩
    · intro b hb
      simp [Metadata.ofFiles, hnone b hb]
    · simp [Metadata.ofFiles, hbase]
  · exact fun _ _ _ _ heq hnewer hbase => findJobOutput_eq heq hnewer hbase

/-- Output recorded before a move stays readable. -/
theorem output_found_under_recent_moved :
    findJobOutput
      (.ofFiles fun path =>
        if path = jobOutputPathIn ["ramdisk"] ⟨.fromU64 7⟩ .stdout then some [102, 111, 111] else none)
      ((OutputDirs.new ["ramdisk"] 1).moves [(["encrypted"], 2)]) ⟨.fromU64 7⟩ .stdout =
      jobOutputPathIn ["ramdisk"] ⟨.fromU64 7⟩ .stdout := by
  obtain ⟨-, -, hfound, -⟩ :=
    output_found_under_recent ["ramdisk"] 1 [(["encrypted"], 2)] ⟨.fromU64 7⟩ .stdout
  obtain ⟨newer, base, older, -, -, hbase, hfind⟩ := hfound
    (fun path => if path = jobOutputPathIn ["ramdisk"] ⟨.fromU64 7⟩ .stdout then some [102, 111, 111] else none)
    ⟨["ramdisk"], by decide, by rw [if_pos rfl]; rfl⟩
  rw [hfind]
  by_contra hne
  rw [if_neg hne] at hbase
  cases hbase

end Sush
