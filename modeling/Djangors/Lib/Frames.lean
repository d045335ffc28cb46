import Mathlib.Data.List.Basic
import Mathlib.Data.Nat.Basic

/-! # Frames

Bytes sent in chunks, each behind its length in four bytes, with an empty chunk as the end. -/

namespace Frames

/-- Chunks of at most `n` elements; with `n = 0` there are none. -/
def chunks {α : Type} (n : Nat) (l : List α) : List (List α) :=
  if _h : n = 0 ∨ l = [] then [] else l.take n :: chunks n (l.drop n)
termination_by l.length
decreasing_by
  rw [not_or] at _h
  have := List.length_pos_of_ne_nil _h.2
  rw [List.length_drop]
  omega

/-- The bytes of a number, the highest first. -/
def bigEndian (n : UInt32) : List UInt8 :=
  [UInt8.ofNat (n.toNat / 16777216), UInt8.ofNat (n.toNat / 65536), UInt8.ofNat (n.toNat / 256), UInt8.ofNat n.toNat]

/-- A chunk behind its length. -/
def frame (chunk : List UInt8) : List UInt8 := bigEndian (UInt32.ofNat chunk.length) ++ chunk

/-- The length that comes first. -/
def readLength : List UInt8 → Option (Nat × List UInt8)
  | a :: b :: c :: d :: rest => some (((a.toNat * 256 + b.toNat) * 256 + c.toNat) * 256 + d.toNat, rest)
  | _ => none

theorem readLength_shorter {bs rest : List UInt8} {n : Nat} (h : readLength bs = some (n, rest)) : rest.length < bs.length := by
  rw [readLength.eq_def] at h
  split at h
  · cases h
    simp only [List.length_cons]
    omega
  · cases h

/-- The chunks up to the empty one, and what is left behind it. -/
def read (bs : List UInt8) : Option (List (List UInt8) × List UInt8) :=
  match _ : readLength bs with
  | none => none
  | some (0, rest) => some ([], rest)
  | some (n + 1, rest) =>
    if n + 1 ≤ rest.length then (read (rest.drop (n + 1))).map fun found => (rest.take (n + 1) :: found.1, found.2) else none
termination_by bs.length
decreasing_by
  rename_i h _
  have := readLength_shorter h
  rw [List.length_drop]
  omega

/-! ### Chunks -/

section Chunks
variable {α : Type} {n : Nat}

theorem flatten_chunks (hn : 0 < n) (l : List α) : (chunks n l).flatten = l := by
  induction hlen : l.length using Nat.strong_induction_on generalizing l with
  | _ k ih =>
    rw [chunks]
    split
    · rename_i h
      rcases h with h | rfl
      · omega
      · rfl
    · rename_i h
      rw [not_or] at h
      have := List.length_pos_of_ne_nil h.2
      rw [List.flatten_cons, ih (l.drop n).length (by rw [List.length_drop]; omega) _ rfl, List.take_append_drop]

/-- No chunk is empty, and none is longer than asked for. -/
theorem length_of_mem_chunks {l chunk : List α} (h : chunk ∈ chunks n l) : 0 < chunk.length ∧ chunk.length ≤ n := by
  induction hlen : l.length using Nat.strong_induction_on generalizing l with
  | _ k ih =>
    rw [chunks] at h
    split at h
    · cases h
    · rename_i hne
      rw [not_or] at hne
      have := List.length_pos_of_ne_nil hne.2
      rcases List.mem_cons.mp h with rfl | h
      · rw [List.length_take]
        omega
      · exact ih (l.drop n).length (by rw [List.length_drop]; omega) h rfl

end Chunks

/-! ### Reading what was framed -/

theorem readLength_bigEndian (n : UInt32) (rest : List UInt8) : readLength (bigEndian n ++ rest) = some (n.toNat, rest) := by
  have hn := n.toNat_lt
  simp only [bigEndian, List.cons_append, List.nil_append, readLength, UInt8.toNat_ofNat', Option.some.injEq, Prod.mk.injEq,
    and_true]
  omega

theorem read_frame {chunk : List UInt8} (hpos : 0 < chunk.length) (hlt : chunk.length < 4294967296) (rest : List UInt8) :
    read (frame chunk ++ rest) = (read rest).map fun found => (chunk :: found.1, found.2) := by
  have hlen : (UInt32.ofNat chunk.length).toNat = chunk.length := by
    rw [UInt32.toNat_ofNat', Nat.mod_eq_of_lt hlt]
  have hread : readLength (frame chunk ++ rest) = some (chunk.length - 1 + 1, chunk ++ rest) := by
    rw [frame, List.append_assoc, readLength_bigEndian, hlen, Nat.sub_add_cancel hpos]
  rw [read]
  split
  · rename_i h
    rw [hread] at h
    cases h
  · rename_i h
    rw [hread] at h
    cases h
  · rename_i n body h
    rw [hread] at h
    cases h
    rw [Nat.sub_add_cancel hpos, if_pos (by rw [List.length_append]; omega), List.drop_left, List.take_left]

theorem read_end (rest : List UInt8) : read (bigEndian 0 ++ rest) = some ([], rest) := by
  have hread : readLength (bigEndian 0 ++ rest) = some (0, rest) := readLength_bigEndian 0 rest
  rw [read]
  split
  · rename_i h
    rw [hread] at h
    cases h
  · rename_i h
    rw [hread] at h
    cases h
    rfl
  · rename_i h
    rw [hread] at h
    cases h

/-- Framed chunks are read one by one, and the reader stops behind the empty one. -/
theorem read_frames {l : List (List UInt8)} (h : ∀ chunk ∈ l, 0 < chunk.length ∧ chunk.length < 4294967296) (rest : List UInt8) :
    read (l.flatMap frame ++ (bigEndian 0 ++ rest)) = some (l, rest) := by
  induction l with
  | nil => exact read_end rest
  | cons chunk l ih =>
    obtain ⟨hpos, hlt⟩ := h chunk List.mem_cons_self
    rw [List.flatMap_cons, List.append_assoc, read_frame hpos hlt, ih fun c hc => h c (List.mem_cons_of_mem _ hc)]
    rfl

end Frames
