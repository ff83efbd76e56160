import Mathlib.Data.List.DropRight
import Stubsmith.Text.Offset

namespace Stubsmith.Text

open String (utf8EncodeChar)

/-- The bytes of a text before an offset. -/
def bytesBefore (s : String) (n : Nat) : List UInt8 :=
  s.toUTF8.data.toList.take n

/-- The byte that a line feed is written as. -/
def lineFeed : UInt8 := 10

/-- The row and the column behind one more byte. -/
def passByte : Nat × Nat → UInt8 → Nat × Nat
  | (row, column), b => if b = lineFeed then (row + 1, 0) else (row, column + 1)

theorem toUTF8_toList (s : String) : s.toUTF8.data.toList = s.toList.flatMap utf8EncodeChar := by
  have hbytes : s.toUTF8 = s.toList.utf8Encode := by
    rw [← String.toByteArray_ofList, String.ofList_toList]
    rfl
  rw [hbytes, List.utf8Encode, List.toList_data_toByteArray]

theorem bytesBefore_eq (s : String) (n : Nat) :
    bytesBefore s n = (s.toList.flatMap utf8EncodeChar).take n := by
  rw [bytesBefore, toUTF8_toList]

/-- A character that takes several bytes has the highest bit set in all of them. -/
theorem high_of_mem_utf8EncodeChar {c : Char} {b : UInt8} (hsize : c.utf8Size ≠ 1)
    (hb : b ∈ utf8EncodeChar c) : b.toBitVec.getLsbD 7 = true := by
  obtain h | h | h | h := c.utf8Size_eq
  · exact absurd h hsize
  · rw [String.utf8EncodeChar_eq_cons_cons h, List.mem_pair] at hb
    obtain rfl | rfl := hb <;> simp
  · rw [String.utf8EncodeChar_eq_cons_cons_cons h] at hb
    simp only [List.mem_cons, List.not_mem_nil, or_false] at hb
    obtain rfl | rfl | rfl := hb <;> simp
  · rw [String.utf8EncodeChar_eq_cons_cons_cons_cons h] at hb
    simp only [List.mem_cons, List.not_mem_nil, or_false] at hb
    obtain rfl | rfl | rfl | rfl := hb <;> simp

theorem lineFeed_notMem_utf8EncodeChar {c : Char} (h : c ≠ '\n') :
    lineFeed ∉ utf8EncodeChar c := by
  intro hb
  by_cases hsize : c.utf8Size = 1
  · rw [String.utf8EncodeChar_eq_singleton hsize, List.mem_singleton] at hb
    have hle : c.val.toNat ≤ 127 := UInt32.le_iff_toNat_le.1 (Char.utf8Size_eq_one_iff.1 hsize)
    have hval : c.val.toNat = 10 := by
      have hnat := congrArg UInt8.toNat hb
      rw [UInt32.toNat_toUInt8, Nat.mod_eq_of_lt (by omega)] at hnat
      exact hnat.symm
    exact h (Char.ext (UInt32.toNat_inj.1 hval))
  · have hhigh := high_of_mem_utf8EncodeChar hsize hb
    exact absurd hhigh (by decide)

theorem foldl_passByte_of_notMem {bs : List UInt8} (h : lineFeed ∉ bs) (row column : Nat) :
    bs.foldl passByte (row, column) = (row, column + bs.length) := by
  induction bs generalizing column with
  | nil => rfl
  | cons b bs ih =>
    obtain ⟨hb, hbs⟩ := List.ne_and_not_mem_of_not_mem_cons h
    have hstep : passByte (row, column) b = (row, column + 1) := if_neg (Ne.symm hb)
    rw [List.foldl_cons, hstep, ih hbs, List.length_cons]
    congr 1
    omega

/-- Passing characters is passing their bytes, also where the offset lies inside a character. -/
theorem rowColumn_eq_foldl (cs : List Char) (n : Nat) (start : Nat × Nat) :
    rowColumn cs n start = ((cs.flatMap utf8EncodeChar).take n).foldl passByte start := by
  induction cs generalizing n start with
  | nil => cases n <;> rfl
  | cons c cs ih =>
    obtain ⟨row, column⟩ := start
    cases n with
    | zero => rfl
    | succ n =>
      rw [rowColumn, ih, List.flatMap_cons, List.take_append, List.foldl_append,
        String.length_utf8EncodeChar]
      congr 1
      by_cases hc : c = '\n'
      · subst hc
        have hbytes : utf8EncodeChar '\n' = [lineFeed] := by decide
        rw [if_pos rfl, hbytes, List.take_succ_cons, List.take_nil]
        rfl
      · have hrest : lineFeed ∉ (utf8EncodeChar c).take (n + 1) := fun hb =>
          lineFeed_notMem_utf8EncodeChar hc (List.mem_of_mem_take hb)
        rw [if_neg hc, foldl_passByte_of_notMem hrest, List.length_take,
          String.length_utf8EncodeChar, Nat.min_comm]

theorem foldl_passByte (bs : List UInt8) :
    bs.foldl passByte (0, 0) = (bs.count lineFeed, (bs.rtakeWhile (· != lineFeed)).length) := by
  induction bs using List.reverseRecOn with
  | nil => rfl
  | append_singleton bs b ih =>
    rw [List.foldl_append, ih, List.foldl_cons, List.foldl_nil, List.count_append,
      List.rtakeWhile_concat, passByte]
    by_cases hb : b = lineFeed
    · subst hb
      simp
    · simp [hb]

theorem rowColumn_eq (s : String) (n : Nat) :
    rowColumn s.toList n (0, 0) =
      ((bytesBefore s n).count lineFeed,
        ((bytesBefore s n).rtakeWhile (· != lineFeed)).length) := by
  rw [rowColumn_eq_foldl, ← bytesBefore_eq, foldl_passByte]

end Stubsmith.Text
