import Mathlib.Data.List.Basic

/-!
# Files

A file is its bytes and a position. Reading and writing happen at the position and move it; writing
beyond the end fills the gap with zeros. Writing puts its bytes in their places and leaves the others
alone (`getElem?_writeAll`), and writing at the end appends (`writeAll_of_atEnd`).
-/

namespace Sush.Lib

/-- `l` with `bs` put in at position `p`. -/
def overlay (l : List UInt8) (p : ℕ) (bs : List UInt8) : List UInt8 :=
  (l ++ List.replicate (p - l.length) 0).take p ++ (bs ++ l.drop (p + bs.length))

theorem getElem?_overlay_of_mem {l bs : List UInt8} {p i : ℕ} (hlow : p ≤ i) (hhigh : i < p + bs.length) :
    (overlay l p bs)[i]? = bs[i - p]? := by
  have hfront : ((l ++ List.replicate (p - l.length) 0).take p).length = p := by simp; omega
  rw [overlay, List.getElem?_append_right (by omega), hfront, List.getElem?_append_left (by omega)]

theorem getElem?_overlay_of_notMem {l bs : List UInt8} {p i : ℕ} (hi : i < l.length)
    (hout : i < p ∨ p + bs.length ≤ i) : (overlay l p bs)[i]? = l[i]? := by
  have hfront : ((l ++ List.replicate (p - l.length) 0).take p).length = p := by simp; omega
  rw [overlay]
  rcases hout with hlow | hhigh
  · rw [List.getElem?_append_left (by omega), List.getElem?_take_of_lt hlow, List.getElem?_append_left hi]
  · rw [List.getElem?_append_right (by omega), hfront, List.getElem?_append_right (by omega),
      List.getElem?_drop]
    congr 1
    omega

theorem length_overlay (l bs : List UInt8) (p : ℕ) :
    (overlay l p bs).length = max l.length (p + bs.length) := by
  simp only [overlay, List.length_append, List.length_take, List.length_replicate, List.length_drop]
  omega

theorem overlay_length (l bs : List UInt8) : overlay l l.length bs = l ++ bs := by
  simp [overlay]

/-- An open file. -/
structure File where
  contents : List UInt8
  position : ℕ
  deriving DecidableEq

namespace File

variable {file : File} {bytes : List UInt8}

def empty : File := ⟨[], 0⟩

def seek (file : File) (position : ℕ) : File := { file with position }

/-- Go to `back` bytes before the end. -/
def seekEnd (file : File) (back : ℕ) : File := file.seek (file.contents.length - back)

def writeAll (file : File) (bytes : List UInt8) : File :=
  if bytes = [] then file
  else ⟨overlay file.contents file.position bytes, file.position + bytes.length⟩

/-- Read `n` bytes at the position, if there are so many. -/
def readExact (file : File) (n : ℕ) : Option (List UInt8 × File) :=
  if file.position + n ≤ file.contents.length then
    some ((file.contents.drop file.position).take n, { file with position := file.position + n })
  else none

/-- The position is where the file ends. -/
def AtEnd (file : File) : Prop := file.position = file.contents.length

theorem position_writeAll (file : File) (bytes : List UInt8) :
    (file.writeAll bytes).position = file.position + bytes.length := by
  unfold writeAll
  split
  · rename_i hnil
    rw [hnil, List.length_nil, Nat.add_zero]
  · rfl

theorem getElem?_writeAll {i : ℕ} (hlow : file.position ≤ i)
    (hhigh : i < file.position + bytes.length) :
    (file.writeAll bytes).contents[i]? = bytes[i - file.position]? := by
  have hne : bytes ≠ [] := by
    rintro rfl
    simp at hhigh
    omega
  rw [writeAll, if_neg hne]
  exact getElem?_overlay_of_mem hlow hhigh

theorem getElem?_writeAll_of_notMem {i : ℕ} (hi : i < file.contents.length)
    (hout : i < file.position ∨ file.position + bytes.length ≤ i) :
    (file.writeAll bytes).contents[i]? = file.contents[i]? := by
  unfold writeAll
  split
  · rfl
  · exact getElem?_overlay_of_notMem hi hout

theorem length_writeAll_le {n : ℕ} (hfile : file.contents.length ≤ n)
    (hbytes : file.position + bytes.length ≤ n) : (file.writeAll bytes).contents.length ≤ n := by
  unfold writeAll
  split
  · exact hfile
  · rw [length_overlay]
    exact Nat.max_le.2 ⟨hfile, hbytes⟩

theorem writeAll_of_atEnd (h : file.AtEnd) (bytes : List UInt8) :
    (file.writeAll bytes).contents = file.contents ++ bytes ∧ (file.writeAll bytes).AtEnd := by
  unfold writeAll
  split
  · rename_i hnil
    rw [hnil, List.append_nil]
    exact ⟨rfl, h⟩
  · have hcontents : overlay file.contents file.position bytes = file.contents ++ bytes := by
      rw [h, overlay_length]
    refine ⟨hcontents, ?_⟩
    rw [AtEnd, hcontents, List.length_append, h]

theorem readExact_seekEnd {n : ℕ} (h : n ≤ file.contents.length) :
    (file.seekEnd n).readExact n =
      some (file.contents.drop (file.contents.length - n), file.seek file.contents.length) := by
  have hall : (file.contents.drop (file.contents.length - n)).take n =
      file.contents.drop (file.contents.length - n) := by
    apply List.take_of_length_le
    rw [List.length_drop]
    omega
  have hpos : file.contents.length - n + n = file.contents.length := by omega
  simp only [readExact, seekEnd, seek, hall, hpos, Nat.le_refl, if_true]

end File

end Sush.Lib
