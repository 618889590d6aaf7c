import Mathlib.Data.List.Range
import Sush.Client.Download

/-!
# Downloads reassemble the output

A client and a server compute ranges of a file each on its own. The ranges that the client asks for tile
the file (`Tiles`): each begins where the one before ended and is no longer than a chunk. None of the sums
overflows, and the server serves each range in full (`jobOutput_range`). Every chunk is written where its
bytes are in the output, so after any of them a byte is the output's wherever it was written
(`byteStreamToFile_ok`), and after all of them, in whatever order they came, the file is the output
(`download_reassembles`).
-/

namespace Sush

variable {output : List UInt8} {file : File} {range : Range}

open Lib (File)

theorem addU64_of_lt {a b : ℕ} (h : a + b < 2 ^ 64) : addU64 a b = some (a + b) := if_pos h

theorem subU64_of_le {a b : ℕ} (h : b ≤ a) : subU64 a b = some (a - b) := if_pos h

/-! ## Ranges -/

/-- The ranges `rs` are one behind the other from `start` to `len`, and none is longer than a chunk. -/
inductive Tiles (len chunkSize : ℕ) : ℕ → List Range → Prop where
  | done : Tiles len chunkSize len []
  | chunk {range : Range} {rs : List Range} (hle : range.start ≤ range.last) (hlt : range.last < len)
    (hsize : range.last + 1 - range.start ≤ chunkSize) (hrest : Tiles len chunkSize (range.last + 1) rs) :
    Tiles len chunkSize range.start (range :: rs)

namespace Tiles

variable {len chunkSize start : ℕ} {rs : List Range}

theorem mem (h : Tiles len chunkSize start rs) : ∀ range ∈ rs,
    range.start ≤ range.last ∧ range.last < len ∧ range.last + 1 - range.start ≤ chunkSize := by
  induction h with
  | done =>
    intro range hrange
    cases hrange
  | chunk hle hlt hsize _ ih =>
    rw [List.forall_mem_cons]
    exact ⟨⟨hle, hlt, hsize⟩, ih⟩

theorem start_le (h : Tiles len chunkSize start rs) : start ≤ len := by
  cases h with
  | done => exact Nat.le_refl _
  | chunk hle hlt => omega

theorem positions (h : Tiles len chunkSize start rs) :
    rs.flatMap (fun range => List.range' range.start (range.last + 1 - range.start)) =
      List.range' start (len - start) := by
  induction h with
  | done => simp
  | @chunk range rs hle hlt _ hrest ih =>
    have hend := hrest.start_le
    rw [List.flatMap_cons, ih]
    have hfirst : range.last + 1 = range.start + (range.last + 1 - range.start) := by omega
    have hsum : len - range.start = range.last + 1 - range.start + (len - (range.last + 1)) := by omega
    rw [hsum, ← List.range'_append_1, ← hfirst]

theorem exists_mem (h : Tiles len chunkSize start rs) {i : ℕ} (hlow : start ≤ i) (hhigh : i < len) :
    ∃ range ∈ rs, range.start ≤ i ∧ i ≤ range.last := by
  have hi : i ∈ List.range' start (len - start) := List.mem_range'_1.2 ⟨hlow, by omega⟩
  rw [← h.positions, List.mem_flatMap] at hi
  obtain ⟨range, hrange, hi⟩ := hi
  obtain ⟨hlow, hhigh⟩ := List.mem_range'_1.1 hi
  have := (h.mem range hrange).1
  exact ⟨range, hrange, hlow, by omega⟩

end Tiles

theorem nextChunk_eq {len chunkSize start : ℕ} (hlen : len ≤ 2 ^ 63) (hpos : 1 ≤ chunkSize)
    (hsize : chunkSize ≤ outputThreshold) (hstart : start < len) :
    nextChunk len chunkSize start =
      some (⟨start, min (start + chunkSize - 1) (len - 1)⟩,
        min (start + chunkSize - 1) (len - 1) + 1) := by
  have hthreshold : outputThreshold < 2 ^ 62 := by decide
  have hsum : start + chunkSize < 2 ^ 64 := by omega
  have hnext : min (start + chunkSize - 1) (len - 1) + 1 < 2 ^ 64 := by omega
  simp only [nextChunk, addU64_of_lt hsum, subU64_of_le (show 1 ≤ start + chunkSize by omega),
    subU64_of_le (show 1 ≤ len by omega), addU64_of_lt hnext, Option.bind_eq_bind, Option.bind_some,
    pure]

theorem chunksLoop_eq {len chunkSize fuel start : ℕ} (hlen : len ≤ 2 ^ 63) (hpos : 1 ≤ chunkSize)
    (hsize : chunkSize ≤ outputThreshold) (hstart : start ≤ len) (hfuel : len - start ≤ fuel)
    (chunks : List Range) :
    ∃ rs, chunksLoop len chunkSize fuel start chunks = some (.ok (chunks ++ rs)) ∧
      Tiles len chunkSize start rs := by
  induction fuel generalizing start chunks with
  | zero =>
    obtain rfl : start = len := by omega
    exact ⟨[], by simp [chunksLoop], .done⟩
  | succ fuel ih =>
    rcases Nat.eq_or_lt_of_le hstart with rfl | hlt
    · exact ⟨[], by simp [chunksLoop], .done⟩
    · obtain ⟨last, hlast⟩ : ∃ last, last = min (start + chunkSize - 1) (len - 1) := ⟨_, rfl⟩
      have hnext := nextChunk_eq hlen hpos hsize hlt
      rw [← hlast] at hnext
      obtain ⟨rs, hloop, htiles⟩ :=
        ih (show last + 1 ≤ len by omega) (by omega) (chunks ++ [⟨start, last⟩])
      have htile : Tiles len chunkSize (Range.mk start last).start (⟨start, last⟩ :: rs) := by
        refine .chunk ?_ ?_ ?_ htiles
        all_goals
          dsimp only
          omega
      refine ⟨⟨start, last⟩ :: rs, ?_, htile⟩
      rw [chunksLoop, if_pos hlt, hnext]
      dsimp only
      rw [hloop, List.append_assoc, List.singleton_append]

theorem Range.len_eq (hle : range.start ≤ range.last) (hlt : range.last < 2 ^ 63) :
    range.len = some (range.last + 1 - range.start) := by
  rw [Range.len, subU64_of_le hle, Option.bind_some, addU64_of_lt (by omega)]
  congr 1
  omega

theorem jobOutput_range (hlen : output.length ≤ 2 ^ 63) (hle : range.start ≤ range.last)
    (hlt : range.last < output.length) (hsize : range.last + 1 - range.start ≤ outputThreshold) :
    jobOutput true (some output) (some range.request) =
      .ok ((output.drop range.start).take (range.last + 1 - range.start)) := by
  have hlength : rangeLength output.length range.start (.index range.last) =
      .ok (range.last + 1 - range.start) := by
    have hn := Range.len_eq hle (by omega)
    rw [Range.len] at hn
    rw [rangeLength, if_pos ⟨hlt, hle⟩, hn]
  have hstart : range.start < output.length := by omega
  have hfits : ¬range.last + 1 - range.start > min output.length outputThreshold := by omega
  simp only [jobOutput, Range.request, Bool.not_true, Bool.false_eq_true, if_false, if_pos hstart,
    hlength, bind, Except.bind, if_neg hfits]

/-! ## Files -/

/-- The file has no more bytes than the output, and byte `i` is the output's. -/
def Agrees (output : List UInt8) (file : File) (i : ℕ) : Prop := file.contents[i]? = output[i]?

/-- Writing bytes of the output where they are in it. -/
theorem writeAll_agrees {output piece : List UInt8} (hfile : file.contents.length ≤ output.length)
    (hpiece : piece <+: output.drop file.position) :
    (file.writeAll piece).contents.length ≤ output.length ∧
      (∀ i, file.position ≤ i → i < file.position + piece.length →
        Agrees output (file.writeAll piece) i) ∧
      ∀ i < output.length, Agrees output file i → Agrees output (file.writeAll piece) i := by
  have hlen := hpiece.length_le
  rw [List.length_drop] at hlen
  have hwritten : ∀ i, file.position ≤ i → i < file.position + piece.length →
      Agrees output (file.writeAll piece) i := by
    intro i hlow hhigh
    have hin : i - file.position < piece.length := by omega
    obtain ⟨rest, hrest⟩ := hpiece
    calc (file.writeAll piece).contents[i]? = piece[i - file.position]? :=
          File.getElem?_writeAll hlow hhigh
      _ = (output.drop file.position)[i - file.position]? := by
          rw [← hrest, List.getElem?_append_left hin]
      _ = output[i]? := by
          rw [List.getElem?_drop]
          congr 1
          omega
  refine ⟨?_, hwritten, fun i hi hagrees => ?_⟩
  · by_cases hnil : piece = []
    · rw [hnil, File.writeAll, if_pos rfl]
      exact hfile
    · have := List.length_pos_iff.2 hnil
      exact File.length_writeAll_le hfile (by omega)
  · by_cases hin : file.position ≤ i ∧ i < file.position + piece.length
    · exact hwritten i hin.1 hin.2
    · -- the byte is in the file already, and is not written over
      have hold : i < file.contents.length := by
        rw [Agrees, List.getElem?_eq_getElem hi] at hagrees
        exact (List.getElem?_eq_some_iff.1 hagrees).1
      rw [Agrees, File.getElem?_writeAll_of_notMem hold (by omega)]
      exact hagrees

/-- The loop over the pieces writes their bytes and counts them. -/
theorem writePieces_ok {pieces : List (List UInt8)} {n : ℕ} (hlen : output.length ≤ 2 ^ 63)
    (hfile : file.contents.length ≤ output.length) (hn : n ≤ file.position)
    (hposition : file.position ≤ output.length)
    (hpieces : pieces.flatten <+: output.drop file.position) :
    ∃ file', writePieces file n pieces = .ok (file', n + pieces.flatten.length) ∧
      file'.contents.length ≤ output.length ∧
      (∀ i, file.position ≤ i → i < file.position + pieces.flatten.length → Agrees output file' i) ∧
      ∀ i < output.length, Agrees output file i → Agrees output file' i := by
  induction pieces generalizing file n with
  | nil =>
    refine ⟨file, rfl, hfile, fun i hlow hhigh => ?_, fun i _ h => h⟩
    rw [List.flatten_nil, List.length_nil] at hhigh
    omega
  | cons piece pieces ih =>
    rw [List.flatten_cons] at hpieces ⊢
    have hlength := hpieces.length_le
    rw [List.length_append, List.length_drop] at hlength
    have hpiece : piece <+: output.drop file.position := (List.prefix_append _ _).trans hpieces
    obtain ⟨hfile', hwritten, hkept⟩ := writeAll_agrees hfile hpiece
    have hnext := file.position_writeAll piece
    have hrest : pieces.flatten <+: output.drop (file.writeAll piece).position := by
      obtain ⟨rest, hrest⟩ := hpieces
      refine ⟨rest, ?_⟩
      rw [hnext, ← List.drop_drop, ← hrest, List.append_assoc, List.drop_left]
    have hcount : n + piece.length ≤ (file.writeAll piece).position := by omega
    obtain ⟨file', hrun, hlen', hwritten', hkept'⟩ := ih hfile' hcount (by omega) hrest
    refine ⟨file', ?_, hlen', fun i hlow hhigh => ?_, fun i hi h => hkept' i hi (hkept i hi h)⟩
    · rw [writePieces, addU64_of_lt (by omega)]
      dsimp only
      rw [hrun, List.length_append, Nat.add_assoc]
    · rw [List.length_append] at hhigh
      by_cases hin : i < file.position + piece.length
      · exact hkept' i (by omega) (hwritten i hlow hin)
      · exact hwritten' i (by omega) (by omega)

/-- A chunk of the output is written to its place. -/
theorem byteStreamToFile_ok {pieces : List (List UInt8)} (hlen : output.length ≤ 2 ^ 63)
    (hle : range.start ≤ range.last) (hlt : range.last < output.length)
    (hpieces : pieces.flatten = (output.drop range.start).take (range.last + 1 - range.start))
    (hfile : file.contents.length ≤ output.length) :
    ∃ file' n, byteStreamToFile file pieces range = .ok (file', n) ∧
      file'.contents.length ≤ output.length ∧
      (∀ i, range.start ≤ i → i ≤ range.last → Agrees output file' i) ∧
      ∀ i < output.length, Agrees output file i → Agrees output file' i := by
  have hcount : pieces.flatten.length = range.last + 1 - range.start := by
    rw [hpieces, List.length_take, List.length_drop]
    omega
  have hseek : (file.seek range.start).contents.length ≤ output.length := hfile
  have hposition : (file.seek range.start).position ≤ output.length := show range.start ≤ _ by omega
  obtain ⟨file', hrun, hlen', hwritten, hkept⟩ := writePieces_ok (n := 0) hlen hseek (Nat.zero_le _)
    hposition (hpieces ▸ List.take_prefix _ _)
  rw [Nat.zero_add, hcount] at hrun
  refine ⟨file', range.last + 1 - range.start, ?_, hlen', fun i hlow hhigh => ?_, hkept⟩
  · rw [byteStreamToFile, hrun]
    dsimp only
    rw [Range.len_eq hle (by omega)]
    dsimp only
    rw [if_pos rfl]
  · refine hwritten i hlow ?_
    rw [hcount]
    show i < range.start + _
    omega

/-- Some chunks of the output, in any order, are written to their places. -/
theorem download_ok {chunks : List Chunk} (hlen : output.length ≤ 2 ^ 63)
    (hchunks : ∀ chunk ∈ chunks, chunk.range.start ≤ chunk.range.last ∧
      chunk.range.last < output.length ∧ chunk.stream.flatten =
        (output.drop chunk.range.start).take (chunk.range.last + 1 - chunk.range.start))
    (hfile : file.contents.length ≤ output.length) :
    ∃ file', download file chunks = .ok file' ∧ file'.contents.length ≤ output.length ∧
      (∀ chunk ∈ chunks, ∀ i, chunk.range.start ≤ i → i ≤ chunk.range.last → Agrees output file' i) ∧
      ∀ i < output.length, Agrees output file i → Agrees output file' i := by
  induction chunks generalizing file with
  | nil => exact ⟨file, rfl, hfile, fun chunk hchunk => (by cases hchunk), fun i _ h => h⟩
  | cons chunk chunks ih =>
    rw [List.forall_mem_cons] at hchunks
    obtain ⟨⟨hle, hlt, hpieces⟩, hrest⟩ := hchunks
    obtain ⟨file₁, n, hrun, hlen₁, hwritten, hkept⟩ := byteStreamToFile_ok hlen hle hlt hpieces hfile
    obtain ⟨file₂, hrun₂, hlen₂, hwritten₂, hkept₂⟩ := ih hrest hlen₁
    refine ⟨file₂, ?_, hlen₂, ?_, fun i hi h => hkept₂ i hi (hkept i hi h)⟩
    · rw [download, hrun]
      exact hrun₂
    · rw [List.forall_mem_cons]
      exact ⟨fun i hlow hhigh => hkept₂ i (by omega) (hwritten i hlow hhigh), hwritten₂⟩

/-- The ranges that a client asks for are not empty, no longer than a chunk, and tile the output, and no
sum overflows; the server serves each of them; and the file that the answers are written to, in any order
and in any pieces, is the output. -/
theorem download_reassembles (output : List UInt8) (chunkSize : ℕ) (hlen : output.length ≤ 2 ^ 63)
    (hpos : 1 ≤ chunkSize) (hsize : chunkSize ≤ outputThreshold) :
    ∃ fuel ranges, jobOutputChunks fuel output.length chunkSize = some (.ok ranges) ∧
      (∀ range ∈ ranges, ∃ n, range.len = some n ∧ 1 ≤ n ∧ n ≤ chunkSize) ∧
      ranges.flatMap (fun range => List.range' range.start (range.last + 1 - range.start)) =
        List.range output.length ∧
      (∀ range ∈ ranges, jobOutput true (some output) (some range.request) =
        .ok ((output.drop range.start).take (range.last + 1 - range.start))) ∧
      ∀ chunks : List Chunk, (chunks.map Chunk.range).Perm ranges →
        (∀ chunk ∈ chunks, jobOutput true (some output) (some chunk.range.request) =
          .ok chunk.stream.flatten) →
        ∃ file, download File.empty chunks = .ok file ∧ file.contents = output := by
  obtain ⟨ranges, hloop, htiles⟩ := chunksLoop_eq hlen hpos hsize (Nat.zero_le output.length)
    (Nat.le_refl (output.length - 0)) []
  have hserved : ∀ range ∈ ranges, jobOutput true (some output) (some range.request) =
      .ok ((output.drop range.start).take (range.last + 1 - range.start)) := by
    intro range hrange
    obtain ⟨hle, hlt, hshort⟩ := htiles.mem range hrange
    exact jobOutput_range hlen hle hlt (hshort.trans hsize)
  refine ⟨_, ranges, hloop, fun range hrange => ?_, ?_, hserved, fun chunks hperm hstreams => ?_⟩
  · obtain ⟨hle, hlt, hshort⟩ := htiles.mem range hrange
    exact ⟨_, Range.len_eq hle (by omega), by omega, hshort⟩
  · rw [htiles.positions, Nat.sub_zero, List.range_eq_range']
  · have hmem : ∀ chunk ∈ chunks, chunk.range ∈ ranges := fun chunk hchunk =>
      hperm.mem_iff.1 (List.mem_map_of_mem hchunk)
    have hchunks : ∀ chunk ∈ chunks, chunk.range.start ≤ chunk.range.last ∧
        chunk.range.last < output.length ∧ chunk.stream.flatten =
          (output.drop chunk.range.start).take (chunk.range.last + 1 - chunk.range.start) := by
      intro chunk hchunk
      obtain ⟨hle, hlt, -⟩ := htiles.mem _ (hmem chunk hchunk)
      refine ⟨hle, hlt, ?_⟩
      have hstream := hstreams chunk hchunk
      rw [hserved _ (hmem chunk hchunk)] at hstream
      exact (Except.ok.inj hstream).symm
    have hempty : File.empty.contents.length ≤ output.length := Nat.zero_le _
    obtain ⟨file, hrun, hlength, hwritten, -⟩ := download_ok hlen hchunks hempty
    refine ⟨file, hrun, List.ext_getElem? fun i => ?_⟩
    by_cases hi : i < output.length
    · -- the position is in a range, and the chunk of the range came
      obtain ⟨range, hrange, hlow, hhigh⟩ := htiles.exists_mem (Nat.zero_le i) hi
      obtain ⟨chunk, hchunk, rfl⟩ := List.mem_map.1 (hperm.mem_iff.2 hrange)
      exact hwritten chunk hchunk i hlow hhigh
    · rw [List.getElem?_eq_none (by omega), List.getElem?_eq_none (by omega)]

/-- Five bytes in chunks of two: the ranges are found and tile them. -/
theorem download_reassembles_five : ∃ fuel ranges,
    jobOutputChunks fuel 5 2 = some (.ok ranges) ∧
      ranges.flatMap (fun range => List.range' range.start (range.last + 1 - range.start)) =
        List.range 5 := by
  obtain ⟨fuel, ranges, hrun, -, htiles, -⟩ :=
    download_reassembles [10, 20, 30, 40, 50] 2 (by decide) (by decide) (by decide)
  exact ⟨fuel, ranges, hrun, htiles⟩

example : jobOutputChunks 5 5 2 = some (.ok [⟨0, 1⟩, ⟨2, 3⟩, ⟨4, 4⟩]) := by decide

end Sush
