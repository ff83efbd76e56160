import Mathlib.Data.List.Perm.Subperm
import Mathlib.Data.List.Sort
import Stubsmith.Files.Sources

namespace Stubsmith

namespace Path

variable {p q r : Part} {ps qs rs : List Part}

theorem Part.before_iff :
    p.before q ↔ p.rank < q.rank ∨ ∃ s t, p = .name s ∧ q = .name t ∧ s < t := by
  cases p with
  | name s =>
    cases q with
    | name t =>
      constructor
      · intro h
        exact .inr ⟨s, t, rfl, rfl, of_decide_eq_true h⟩
      · rintro (h | ⟨s, t, ⟨⟩, ⟨⟩, h⟩)
        · exact absurd h (Nat.lt_irrefl _)
        · exact decide_eq_true h
    | _ => simp [before, rank]
  | _ => cases q <;> simp [before, rank]

theorem Part.before_irrefl (p : Part) : p.before p = false := by
  rw [← Bool.not_eq_true, before_iff]
  rintro (h | ⟨s, t, rfl, ⟨⟩, h⟩)
  · exact Nat.lt_irrefl _ h
  · exact String.lt_irrefl _ h

theorem Part.before_trans (hpq : p.before q) (hqr : q.before r) : p.before r := by
  rw [before_iff] at *
  rcases hpq with hpq | ⟨s, t, rfl, rfl, hst⟩
  · rcases hqr with hqr | ⟨t, u, rfl, rfl, -⟩
    · exact .inl (hpq.trans hqr)
    · exact .inl hpq
  · rcases hqr with hqr | ⟨t, u, ⟨⟩, rfl, htu⟩
    · exact .inl hqr
    · exact .inr ⟨s, u, rfl, rfl, String.lt_trans hst htu⟩

theorem Part.before_trichotomy (p q : Part) : p.before q ∨ p = q ∨ q.before p := by
  cases p with
  | name s =>
    cases q with
    | name t =>
      simp only [before, decide_eq_true_eq, name.injEq]
      by_cases hst : s < t
      · exact .inl hst
      by_cases hts : t < s
      · exact .inr (.inr hts)
      · exact .inr (.inl (String.le_antisymm (String.not_lt.1 hts) (String.not_lt.1 hst)))
    | _ => simp [before, rank]
  | _ => cases q <;> simp [before, rank]

theorem partsBefore_cons :
    partsBefore (p :: ps) (q :: qs) ↔ p.before q ∨ p = q ∧ partsBefore ps qs := by
  simp [partsBefore]

theorem partsBefore_irrefl (ps : List Part) : partsBefore ps ps = false := by
  induction ps with
  | nil => rfl
  | cons p ps ih => simp [partsBefore, Part.before_irrefl, ih]

theorem partsBefore_trans (hpq : partsBefore ps qs) (hqr : partsBefore qs rs) :
    partsBefore ps rs := by
  induction ps generalizing qs rs with
  | nil =>
    cases qs with
    | nil => exact hqr
    | cons q qs => cases rs with
      | nil => simp [partsBefore] at hqr
      | cons => rfl
  | cons p ps ih =>
    cases qs with
    | nil => simp [partsBefore] at hpq
    | cons q qs =>
      cases rs with
      | nil => simp [partsBefore] at hqr
      | cons r rs =>
        rw [partsBefore_cons] at hpq hqr ⊢
        rcases hpq with hpq | ⟨rfl, hpq⟩ <;> rcases hqr with hqr | ⟨rfl, hqr⟩
        · exact .inl (Part.before_trans hpq hqr)
        · exact .inl hpq
        · exact .inl hqr
        · exact .inr ⟨rfl, ih hpq hqr⟩

theorem partsBefore_trichotomy (ps qs : List Part) :
    partsBefore ps qs ∨ ps = qs ∨ partsBefore qs ps := by
  induction ps generalizing qs with
  | nil => cases qs <;> simp [partsBefore]
  | cons p ps ih =>
    cases qs with
    | nil => simp [partsBefore]
    | cons q qs =>
      rw [partsBefore_cons, partsBefore_cons]
      rcases Part.before_trichotomy p q with hpq | rfl | hqp
      · exact .inl (.inl hpq)
      · rcases ih qs with h | rfl | h
        · exact .inl (.inr ⟨rfl, h⟩)
        · exact .inr (.inl rfl)
        · exact .inr (.inr (.inr ⟨rfl, h⟩))
      · exact .inr (.inr (.inl hqp))

theorem sameParts_iff {p q : String} : sameParts p q ↔ parts p = parts q := by
  simp [sameParts]

theorem before_asymm {p q : String} (h : before p q) : before q p = false := by
  by_contra hqp
  have hpp := partsBefore_trans h ((Bool.not_eq_false _).mp hqp)
  rw [partsBefore_irrefl] at hpp
  cases hpp

theorem not_before_iff {p q : String} : before q p = false ↔ before p q ∨ parts p = parts q := by
  constructor
  · intro h
    rcases partsBefore_trichotomy (parts p) (parts q) with hpq | heq | hqp
    · exact .inl hpq
    · exact .inr heq
    · rw [before, hqp] at h
      cases h
  · rintro (h | h)
    · exact before_asymm h
    · rw [before, h, partsBefore_irrefl]

theorem not_before_trans {p q r : String} (hpq : before q p = false) (hqr : before r q = false) :
    before r p = false := by
  rw [not_before_iff] at *
  rcases hpq with hpq | hpq
  · rcases hqr with hqr | hqr
    · exact .inl (partsBefore_trans hpq hqr)
    · exact .inl (by rwa [before, ← hqr])
  · rwa [before, hpq]

theorem before_of_before_of_not {p q r : String} (hpq : before p q) (hqr : before r q = false) :
    before p r := by
  rcases not_before_iff.1 hqr with h | h
  · exact partsBefore_trans hpq h
  · rwa [before, ← h]

end Path

open Stubsmith.Path

variable {l m : List String}

theorem pairwise_mergeSort_before (l : List String) :
    (l.mergeSort fun p q => !before q p).Pairwise fun p q => before q p = false := by
  have htrans : ∀ p q r : String, !before q p → !before r q → !before r p := by
    intro p q r hpq hqr
    rw [Bool.not_eq_true'] at *
    exact not_before_trans hpq hqr
  have htotal : ∀ p q : String, (!before q p) || (!before p q) := by
    intro p q
    cases hqp : before q p with
    | false => rfl
    | true => simp [before_asymm hqp]
  have hsorted := List.pairwise_mergeSort htrans htotal l
  simpa using hsorted

/-- Of sorted paths those that stay are strictly in order, and the parts of every path are among
theirs. -/
theorem dropRepeated_sorted (h : l.Pairwise fun p q => before q p = false) :
    (dropRepeated l).Pairwise (before · ·) ∧ (dropRepeated l).Sublist l ∧
      ∀ p ∈ l, ∃ q ∈ dropRepeated l, parts q = parts p := by
  fun_induction dropRepeated l with
  | case1 => simp
  | case2 p => simp
  | case3 p q rest hsame ih =>
    have hsub : (p :: rest).Sublist (p :: q :: rest) := (List.sublist_cons_self q rest).cons_cons p
    obtain ⟨hstrict, hleft, hkeeps⟩ := ih (h.sublist hsub)
    refine ⟨hstrict, hleft.trans hsub, ?_⟩
    intro x hx
    rcases List.mem_cons.1 hx with rfl | hx
    · exact hkeeps x (by simp)
    rcases List.mem_cons.1 hx with rfl | hx
    · obtain ⟨y, hy, heq⟩ := hkeeps p (by simp)
      exact ⟨y, hy, heq.trans (sameParts_iff.1 hsame)⟩
    · exact hkeeps x (by simp [hx])
  | case4 p q rest hdiff ih =>
    obtain ⟨hp, hrest⟩ := List.pairwise_cons.1 h
    obtain ⟨hstrict, hleft, hkeeps⟩ := ih hrest
    have hpq : before p q := by
      rcases not_before_iff.1 (hp q (by simp)) with hpq | heq
      · exact hpq
      · exact absurd (sameParts_iff.2 heq) hdiff
    refine ⟨List.pairwise_cons.2 ⟨?_, hstrict⟩, hleft.cons_cons p, ?_⟩
    · intro x hx
      rcases List.mem_cons.1 (hleft.subset hx) with rfl | hx
      · exact hpq
      · exact before_of_before_of_not hpq ((List.pairwise_cons.1 hrest).1 x hx)
    · intro x hx
      rcases List.mem_cons.1 hx with rfl | hx
      · exact ⟨x, by simp, rfl⟩
      · obtain ⟨y, hy, heq⟩ := hkeeps x hx
        exact ⟨y, by simp [hy], heq⟩

theorem pairwise_canonicalPaths (l : List String) : (canonicalPaths l).Pairwise (before · ·) :=
  (dropRepeated_sorted (pairwise_mergeSort_before l)).1

theorem mem_of_mem_canonicalPaths {p : String} (h : p ∈ canonicalPaths l) : p ∈ l := by
  have hsub := (dropRepeated_sorted (pairwise_mergeSort_before l)).2.1
  exact (List.mergeSort_perm l _).mem_iff.1 (hsub.subset h)

theorem exists_mem_canonicalPaths {p : String} (h : p ∈ l) :
    ∃ q ∈ canonicalPaths l, parts q = parts p :=
  (dropRepeated_sorted (pairwise_mergeSort_before l)).2.2 p ((List.mergeSort_perm l _).mem_iff.2 h)

/-- Of two strictly increasing lists of paths one is part of the other if its members are. -/
theorem parts_sublist (hl : l.Pairwise (before · ·)) (hm : m.Pairwise (before · ·))
    (h : ∀ p ∈ l, ∃ q ∈ m, parts q = parts p) : (l.map parts).Sublist (m.map parts) := by
  have hparts {l : List String} (hl : l.Pairwise (before · ·)) :
      (l.map parts).Pairwise (partsBefore · ·) := List.pairwise_map.2 hl
  have hnodup : (l.map parts).Nodup := by
    apply (hparts hl).imp
    rintro x y hxy rfl
    rw [partsBefore_irrefl] at hxy
    cases hxy
  have hsubset : l.map parts ⊆ m.map parts := by
    intro x hx
    obtain ⟨p, hp, rfl⟩ := List.mem_map.1 hx
    obtain ⟨q, hq, heq⟩ := h p hp
    exact heq ▸ List.mem_map_of_mem hq
  have : Std.Antisymm fun x y : List Part => partsBefore x y = true := by
    constructor
    intro x y hxy hyx
    have hxx := partsBefore_trans hxy hyx
    rw [partsBefore_irrefl] at hxx
    cases hxx
  exact List.sublist_of_subperm_of_pairwise (hnodup.subperm hsubset) (hparts hl) (hparts hm)

end Stubsmith
