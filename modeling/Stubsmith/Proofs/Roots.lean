import Mathlib.Tactic.Tauto
import Stubsmith.Proofs.Components

namespace Stubsmith

namespace Search

open Stubsmith.Graph

variable {g : Graph} {s : Search} {v w : Nat}

/-- The vertices that a search is not done with. -/
def pendingList (s : Search) : List Nat :=
  s.entered.filter (!s.finished.contains ·)

theorem mem_pendingList : v ∈ s.pendingList ↔ s.Pending v := by
  simp [pendingList, Pending]

/-- The vertices that a search is done with and that are linked to none that it came to later or is
not done with. -/
def roots (g : Graph) (s : Search) : List Nat :=
  g.leaders s.pendingList s.finished

theorem pendingList_enter (hs : s.Sound g) (hv : v ∉ s.entered) :
    pendingList { s with entered := v :: s.entered } = v :: s.pendingList := by
  have hvf : v ∉ s.finished := by
    intro h
    exact hv (hs.finished_entered v h)
  simp [pendingList, hvf]

/-- A new vertex is linked to no root. -/
theorem roots_enter (hc : g.Closed) (hs : s.Sound g) (hv : v < g.size) (hnew : v ∉ s.entered) :
    roots g { s with entered := v :: s.entered } = roots g s := by
  suffices h : ∀ l₁ l₂, s.finished = l₁ ++ l₂ →
      g.leaders (v :: s.pendingList) l₂ =
        g.leaders s.pendingList l₂ by
    rw [roots, pendingList_enter hs hnew]
    exact h [] s.finished rfl
  intro l₁ l₂ hl
  induction l₂ generalizing l₁ with
  | nil => rfl
  | cons w rest ih =>
    have hl' : s.finished = (l₁ ++ [w]) ++ rest := by simpa using hl
    have hlt {x : Nat} (hx : x ∈ s.entered) : x < g.size := hs.entered_lt x hx
    have hw : w ∈ s.entered := hs.finished_entered w (by simp [hl])
    have hany : (rest ++ v :: s.pendingList).any (g.joined w) =
        (rest ++ s.pendingList).any (g.joined w) := by
      have himp : g.joined w v → (rest ++ s.pendingList).any (g.joined w) := by
        intro hjoined
        have hlink := (joined_iff hc (hlt hw) hv).1 hjoined
        rcases hs.settled _ _ hl' w (by simp) v hlink.1 with h | ⟨y, hy, hwy⟩
        · exact absurd (hs.finished_entered v (by rw [hl']; exact List.mem_append_left _ h)) hnew
        · have hye : y ∈ s.entered := by
            rcases hy with hy | hy
            · exact hs.finished_entered y (by rw [hl']; exact List.mem_append_right _ hy)
            · exact hy.1
          refine List.any_eq_true.2 ⟨y, ?_, (joined_iff hc (hlt hw) (hlt hye)).2 hwy⟩
          exact List.mem_append.2 (hy.imp_right mem_pendingList.2)
      rw [Bool.eq_iff_iff]
      simp only [List.any_append, List.any_cons, Bool.or_eq_true] at himp ⊢
      tauto
    rw [leaders, leaders, hany, ih _ hl']

theorem pending_finish_iff : Pending { s with finished := s.finished ++ [v] } w ↔
    s.Pending w ∧ w ≠ v := by
  simp [Pending, and_assoc]

theorem roots_finish (hv : s.Pending v) :
    roots g { s with finished := s.finished ++ [v] } =
      roots g s ++
        g.leaders (pendingList { s with finished := s.finished ++ [v] }) [v] := by
  rw [roots, leaders_append, roots]
  congr 1
  apply leaders_congr
  intro x
  rw [List.mem_append, mem_pendingList, mem_pendingList, pending_finish_iff, List.mem_singleton]
  by_cases hx : x = v <;> simp [hx, hv]

section

variable (hc : g.Closed) (hs : s.Sound g) (hv : s.Pending v)

include hc hs hv

/-- A vertex that the search is done with is no root if it is linked to one that it is not done
with. -/
theorem roots_finish_of_linked (h : ∃ p, s.Pending p ∧ p ≠ v ∧ g.Linked v p) :
    roots g { s with finished := s.finished ++ [v] } = roots g s := by
  obtain ⟨p, hp, hpv, hlink⟩ := h
  have hjoined : g.joined v p :=
    (joined_iff hc (hs.entered_lt v hv.1) (hs.entered_lt p hp.1)).2 hlink
  have hmem : p ∈ pendingList { s with finished := s.finished ++ [v] } :=
    mem_pendingList.2 (pending_finish_iff.2 ⟨hp, hpv⟩)
  have hany : ([] ++ pendingList { s with finished := s.finished ++ [v] }).any
      (g.joined v) := List.any_eq_true.2 ⟨p, hmem, hjoined⟩
  rw [roots_finish hv, leaders, if_pos hany]
  exact List.append_nil _

theorem roots_finish_of_not_linked (h : ∀ p, s.Pending p → p ≠ v → ¬g.Linked v p) :
    roots g { s with finished := s.finished ++ [v] } = roots g s ++ [v] := by
  have hany : ¬([] ++ pendingList { s with finished := s.finished ++ [v] }).any
      (g.joined v) := by
    intro hany
    obtain ⟨p, hp, hjoined⟩ := List.any_eq_true.1 hany
    obtain ⟨hp, hpv⟩ := pending_finish_iff.1 (mem_pendingList.1 hp)
    exact h p hp hpv
      ((joined_iff hc (hs.entered_lt v hv.1) (hs.entered_lt p hp.1)).1 hjoined)
  rw [roots_finish hv, leaders, if_neg hany]
  rfl

end

end Search

end Stubsmith
