import Mathlib.Data.String.Basic
import Stubsmith.Text.Offset

namespace Stubsmith.Text

open String (utf8Len)

/-- Whether an offset lies between two characters of a text or at one of its ends. -/
def isBoundary (s : String) (n : Nat) : Bool :=
  (dropBytes? n s.toList).isSome

variable {s : String} {a b c : Nat}

theorem dropBytes?_cons (c : Char) (cs : List Char) (n : Nat) :
    dropBytes? (n + c.utf8Size) (c :: cs) = dropBytes? n cs := by
  obtain ⟨k, hk⟩ := Nat.exists_eq_succ_of_ne_zero (Nat.ne_of_gt c.utf8Size_pos)
  have hrest : n + k + 1 - c.utf8Size = n := by omega
  rw [hk, Nat.add_succ, dropBytes?, if_pos (by omega), hrest]

theorem takeBytes?_cons (c : Char) (cs : List Char) (n : Nat) :
    takeBytes? (n + c.utf8Size) (c :: cs) = (takeBytes? n cs).map (c :: ·) := by
  obtain ⟨k, hk⟩ := Nat.exists_eq_succ_of_ne_zero (Nat.ne_of_gt c.utf8Size_pos)
  have hrest : n + k + 1 - c.utf8Size = n := by omega
  rw [hk, Nat.add_succ, takeBytes?, if_pos (by omega), hrest]

theorem dropBytes?_append (front back : List Char) :
    dropBytes? (utf8Len front) (front ++ back) = some back := by
  induction front with
  | nil => cases back <;> rfl
  | cons c front ih => rw [String.utf8Len_cons, List.cons_append, dropBytes?_cons, ih]

theorem takeBytes?_append (front back : List Char) :
    takeBytes? (utf8Len front) (front ++ back) = some front := by
  induction front with
  | nil => cases back <;> rfl
  | cons c front ih =>
    rw [String.utf8Len_cons, List.cons_append, takeBytes?_cons, ih, Option.map_some]

theorem exists_of_dropBytes? {n : Nat} {cs back : List Char} (h : dropBytes? n cs = some back) :
    ∃ front, cs = front ++ back ∧ utf8Len front = n := by
  induction cs generalizing n with
  | nil =>
    cases n with
    | zero => exact ⟨[], by simpa [dropBytes?] using h, rfl⟩
    | succ n => simp [dropBytes?] at h
  | cons c cs ih =>
    cases n with
    | zero => exact ⟨[], by simpa [dropBytes?] using h, rfl⟩
    | succ n =>
      by_cases hle : c.utf8Size ≤ n + 1
      · rw [dropBytes?, if_pos hle] at h
        obtain ⟨front, rfl, hlength⟩ := ih h
        refine ⟨c :: front, rfl, ?_⟩
        rw [String.utf8Len_cons, hlength]
        omega
      · simp [dropBytes?, hle] at h

theorem isBoundary_iff : isBoundary s a ↔ ∃ front, front <+: s.toList ∧ utf8Len front = a := by
  rw [isBoundary, Option.isSome_iff_exists]
  constructor
  · rintro ⟨back, h⟩
    obtain ⟨front, hs, hlength⟩ := exists_of_dropBytes? h
    exact ⟨front, ⟨back, hs.symm⟩, hlength⟩
  · rintro ⟨front, ⟨back, hs⟩, rfl⟩
    exact ⟨back, by rw [← hs, dropBytes?_append]⟩

theorem slice?_eq {front mid cs : List Char} (h : front ++ mid <+: cs) :
    slice? cs (utf8Len front) (utf8Len (front ++ mid)) = some mid := by
  obtain ⟨back, rfl⟩ := h
  rw [String.utf8Len_append, slice?, if_pos (Nat.le_add_right _ _), List.append_assoc,
    dropBytes?_append, Nat.add_sub_cancel_left, Option.bind_some, takeBytes?_append]

theorem slice_eq {front mid : List Char} (h : front ++ mid <+: s.toList) :
    slice s (utf8Len front) (utf8Len (front ++ mid)) = String.ofList mid := by
  rw [slice, slice?_eq h, Option.getD_some]

/-- Of two beginnings of a text the one with fewer bytes begins the other. -/
theorem prefix_of_utf8Len_le {front whole cs : List Char} (hfront : front <+: cs)
    (hwhole : whole <+: cs) (hle : utf8Len front ≤ utf8Len whole) : front <+: whole := by
  obtain h | ⟨more, rfl⟩ := List.prefix_or_prefix_of_prefix hfront hwhole
  · exact h
  · have hempty : utf8Len more = 0 := by
      rw [String.utf8Len_append] at hle
      omega
    have hsame : whole ++ more = whole := by
      rw [String.utf8Len_eq_zero.1 hempty, List.append_nil]
    exact ⟨[], by rw [List.append_nil, hsame]⟩

/-- Between two boundaries there is a text. -/
theorem slice?_of_boundaries (ha : isBoundary s a) (hb : isBoundary s b) (hab : a ≤ b) :
    slice? s.toList a b = some (slice s a b).toList := by
  obtain ⟨front, hfront, rfl⟩ := isBoundary_iff.1 ha
  obtain ⟨whole, hwhole, rfl⟩ := isBoundary_iff.1 hb
  obtain ⟨mid, rfl⟩ := prefix_of_utf8Len_le hfront hwhole hab
  rw [slice_eq hwhole, slice?_eq hwhole, String.toList_ofList]

theorem slice_self (ha : isBoundary s a) : slice s a a = "" := by
  obtain ⟨front, hfront, rfl⟩ := isBoundary_iff.1 ha
  have hnothing : front ++ [] <+: s.toList := by rwa [List.append_nil]
  have h := slice_eq hnothing
  rwa [List.append_nil] at h

theorem slice_append (ha : isBoundary s a) (hb : isBoundary s b) (hc : isBoundary s c) (hab : a ≤ b)
    (hbc : b ≤ c) : slice s a b ++ slice s b c = slice s a c := by
  obtain ⟨front, hfront, rfl⟩ := isBoundary_iff.1 ha
  obtain ⟨middle, hmiddle, rfl⟩ := isBoundary_iff.1 hb
  obtain ⟨whole, hwhole, rfl⟩ := isBoundary_iff.1 hc
  obtain ⟨xs, rfl⟩ := prefix_of_utf8Len_le hfront hmiddle hab
  obtain ⟨ys, rfl⟩ := prefix_of_utf8Len_le hmiddle hwhole hbc
  rw [slice_eq hmiddle, slice_eq hwhole, ← String.ofList_append]
  rw [List.append_assoc] at hwhole ⊢
  exact (slice_eq hwhole).symm

end Stubsmith.Text
