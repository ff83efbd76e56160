import Stubsmith.Proofs.ResolverState
import Stubsmith.Proofs.Roots

namespace Stubsmith

namespace Resolver

open Stubsmith.Graph Stubsmith.Search

/-- A resolver whose visits are those of a search. On its stack stand the vertices that are linked
to one that the search is not done with, and the components of all others are written. -/
structure Tracks (g : Graph) (p₀ : Placement) (t : Resolver) (s : Search) : Prop where
  sized : t.Sized g.size
  visited : ∀ v, (t.index? v).isSome ↔ v ∈ s.entered
  lt_next : ∀ v ∈ s.entered, t.number v < t.nextIndex
  sorted : t.stack.Pairwise fun a b => t.number b < t.number a
  isOnStack : ∀ v, t.isOnStack v ↔ v ∈ t.stack
  stack : ∀ v, v ∈ t.stack ↔ v ∈ s.entered ∧ ∃ p, s.Pending p ∧ g.Linked v p
  placement : t.placement = ((roots g s).flatMap g.partners).foldl .emit p₀

variable {g : Graph} {p₀ : Placement} {t t' : Resolver} {s s' : Search} {v w : Nat}

theorem number_enter (hs : t.Sized g.size) (hv : v < g.size) :
    (t.enter v).number w = if w = v then t.nextIndex else t.number w := by
  rw [number, index?_enter hs hv]
  split <;> rfl

@[simp]
theorem number_lower (t : Resolver) (v m w : Nat) : (t.lower v m).number w = t.number w :=
  rfl

theorem Tracks.lower (h : Tracks g p₀ t s) (v m : Nat) : Tracks g p₀ (t.lower v m) s :=
  ⟨h.sized.lower v m, h.visited, h.lt_next, h.sorted, h.isOnStack, h.stack, h.placement⟩

theorem Tracks.entered (h : Tracks g p₀ t s) (hv : v ∈ t.stack) : v ∈ s.entered :=
  ((h.stack v).1 hv).1

theorem Tracks.nodup_stack (h : Tracks g p₀ t s) : t.stack.Nodup := by
  apply h.sorted.imp
  rintro a b hlt rfl
  exact Nat.lt_irrefl _ hlt

theorem Tracks.enter (h : Tracks g p₀ t s) (hc : g.Closed) (hs : s.Sound g) (hv : v < g.size)
    (hnew : v ∉ s.entered) : Tracks g p₀ (t.enter v) { s with entered := v :: s.entered } where
  sized := h.sized.enter v
  visited w := by
    rw [index?_enter h.sized hv, List.mem_cons, ← h.visited w]
    by_cases hw : w = v <;> simp [hw]
  lt_next w hw := by
    rw [number_enter h.sized hv]
    change _ < t.nextIndex + 1
    rcases List.mem_cons.1 hw with rfl | hw
    · simp
    · have hne : w ≠ v := by
        intro heq
        exact hnew (heq ▸ hw)
      have hlt := h.lt_next w hw
      rw [if_neg hne]
      omega
  sorted := by
    have hold {w : Nat} (hw : w ∈ t.stack) : (t.enter v).number w = t.number w := by
      have hne : w ≠ v := by
        intro heq
        exact hnew (heq ▸ h.entered hw)
      rw [number_enter h.sized hv, if_neg hne]
    refine List.pairwise_cons.2 ⟨fun w hw => ?_, h.sorted.imp_of_mem fun ha hb hab => ?_⟩
    · rw [hold hw, number_enter h.sized hv, if_pos rfl]
      exact h.lt_next w (h.entered hw)
    · rwa [hold ha, hold hb]
  isOnStack w := by
    rw [isOnStack_enter h.sized hv]
    change _ ↔ w ∈ v :: t.stack
    rw [List.mem_cons, ← h.isOnStack w]
    by_cases hw : w = v <;> simp [hw]
  stack w := by
    have hpending (p : Nat) := pending_enter_iff (w := p) hs hnew
    change w ∈ v :: t.stack ↔ w ∈ v :: s.entered ∧ _
    rw [List.mem_cons, List.mem_cons, h.stack w]
    constructor
    · intro h
      rcases h with rfl | ⟨hw, p, hp, hlink⟩
      · exact ⟨.inl rfl, w, (hpending w).2 (.inl rfl), .refl g w⟩
      · exact ⟨.inr hw, p, (hpending p).2 (.inr hp), hlink⟩
    · intro h
      rcases h with ⟨rfl | hw, p, hp, hlink⟩
      · exact .inl rfl
      rcases (hpending p).1 hp with rfl | hp
      · -- `w` leads to a new vertex, so the search is not done with its component
        by_cases hwf : w ∈ s.finished
        · rcases hs.settled s.finished [] (by simp) w hwf p hlink.1 with h | ⟨y, hy | hy, hwy⟩
          · exact absurd (hs.finished_entered p h) hnew
          · simp at hy
          · exact .inr ⟨hw, y, hy, hwy⟩
        · exact .inr ⟨hw, w, ⟨hw, hwf⟩, .refl g w⟩
      · exact .inr ⟨hw, p, hp, hlink⟩
  placement := by
    rw [roots_enter hc hs hv hnew]
    exact h.placement

/-- What visiting `v` and all that it leads to does to a resolver `t` and a search `s`. The low link
of `v` is the number of a slot that was on the stack before, or of `v`, and none of these that the
new slots lead to has a lower one. -/
structure Connects (g : Graph) (p₀ : Placement) (t : Resolver) (s : Search) (v : Nat)
    (t' : Resolver) (s' : Search) : Prop where
  tracks : Tracks g p₀ t' s'
  nextIndex : t.nextIndex ≤ t'.nextIndex
  number : ∀ w ∈ s.entered, t'.number w = t.number w
  low : ∀ w ∈ s.entered, t'.low w = t.low w
  fresh : ∀ w ∈ s'.entered, w ∉ s.entered → t.nextIndex ≤ t'.number w
  stack : ∃ above, t'.stack = above ++ t.stack ∧ ∀ w ∈ above, w ∉ s.entered
  reached : ∃ y, (y = v ∨ y ∈ t.stack) ∧ t'.number y = t'.low v ∧ g.Reaches v y
  least : ∀ w ∈ s'.entered, w ∉ s.entered → ∀ y ∈ t.stack, g.Edge w y → t'.low v ≤ t'.number y

/-- The resolver `t` and the search `s` inside of `v`, which `t₀` and `s₀` had not visited, when the
successors `seen` of it have been looked at. -/
structure Inside (g : Graph) (p₀ : Placement) (t₀ : Resolver) (s₀ : Search) (v : Nat)
    (seen : List Nat) (t : Resolver) (s : Search) : Prop where
  tracks : Tracks g p₀ t s
  sound : s.Sound g
  nextIndex : t₀.nextIndex ≤ t.nextIndex
  entered : ∀ w ∈ s₀.entered, w ∈ s.entered
  self : v ∈ s.entered
  room : s₀.entered.length < s.entered.length
  pending : ∀ p, s.Pending p ↔ p = v ∨ s₀.Pending p
  number : ∀ w ∈ s₀.entered, t.number w = t₀.number w
  low : ∀ w ∈ s₀.entered, t.low w = t₀.low w
  fresh : ∀ w ∈ s.entered, w ∉ s₀.entered → t₀.nextIndex ≤ t.number w
  stack : ∃ above, t.stack = above ++ v :: t₀.stack ∧ ∀ w ∈ above, w ∉ s₀.entered
  reached : ∃ y, (y = v ∨ y ∈ t₀.stack) ∧ t.number y = t.low v ∧ g.Reaches v y
  least : ∀ w ∈ s.entered, w ∉ s₀.entered → w ≠ v → ∀ y ∈ t₀.stack, g.Edge w y →
    t.low v ≤ t.number y
  least_seen : ∀ y ∈ seen, y ∈ t₀.stack → t.low v ≤ t.number y

variable {t₀ : Resolver} {s₀ : Search} {seen : List Nat}

theorem Inside.enter (hc : g.Closed) (h : Tracks g p₀ t₀ s₀) (hs : s₀.Sound g) (hv : v < g.size)
    (hnew : v ∉ s₀.entered) :
    Inside g p₀ t₀ s₀ v [] (t₀.enter v) { s₀ with entered := v :: s₀.entered } := by
  have hne {w : Nat} (hw : w ∈ s₀.entered) : w ≠ v := by
    intro heq
    exact hnew (heq ▸ hw)
  have hself : (t₀.enter v).number v = t₀.nextIndex := by
    rw [number_enter h.sized hv, if_pos rfl]
  have honly {w : Nat} (hw : w ∈ v :: s₀.entered) (hw' : w ∉ s₀.entered) : w = v :=
    (List.mem_cons.1 hw).resolve_right hw'
  refine ⟨h.enter hc hs hv hnew, hs.enter hv hnew, Nat.le_succ _, fun w hw => by simp [hw], by simp,
    by simp, fun p => pending_enter_iff hs hnew, ?_, ?_, ?_, ⟨[], rfl, by simp⟩, ?_, ?_, by simp⟩
  · intro w hw
    rw [number_enter h.sized hv, if_neg (hne hw)]
  · intro w hw
    rw [low_enter h.sized hv, if_neg (hne hw)]
  · intro w hw hw'
    exact Nat.le_of_eq (by rw [honly hw hw', hself])
  · refine ⟨v, .inl rfl, ?_, .refl⟩
    rw [hself, low_enter h.sized hv, if_pos rfl]
  · intro w hw hw' hwv
    exact absurd (honly hw hw') hwv

/-- What was on the stack before has lower numbers than the slot at hand. -/
theorem Inside.number_lt (h : Inside g p₀ t₀ s₀ v seen t s) (hw : w ∈ t₀.stack) :
    t.number w < t.number v := by
  obtain ⟨above, hstack, -⟩ := h.stack
  have hsorted := h.tracks.sorted
  rw [hstack] at hsorted
  have hbelow := (List.pairwise_append.1 hsorted).2.1
  exact (List.pairwise_cons.1 hbelow).1 w hw

/-- On the stack nothing else has a lower number than the slot at hand. -/
theorem Inside.mem_of_number_lt (h : Inside g p₀ t₀ s₀ v seen t s) (hw : w ∈ t.stack)
    (hlt : t.number w < t.number v) : w ∈ t₀.stack := by
  obtain ⟨above, hstack, -⟩ := h.stack
  have hsorted := h.tracks.sorted
  rw [hstack] at hw hsorted
  rcases List.mem_append.1 hw with hw | hw
  · have habove := (List.pairwise_append.1 hsorted).2.2 w hw v (by simp)
    omega
  rcases List.mem_cons.1 hw with rfl | hw
  · omega
  · exact hw

theorem Inside.low_le_number (h : Inside g p₀ t₀ s₀ v seen t s) : t.low v ≤ t.number v := by
  obtain ⟨y, hy, hlow, -⟩ := h.reached
  rw [← hlow]
  rcases hy with rfl | hy
  · exact Nat.le_refl _
  · exact Nat.le_of_lt (h.number_lt hy)

/-- Noting a number that the slot at hand leads back to keeps what is known of its low link, if no
slot below has a lower number that the new number would stand for. -/
theorem Inside.lower (h : Inside g p₀ t₀ s₀ v seen t s) (hv : v < g.size) (hnew : v ∉ s₀.entered)
    {m : Nat} (hm : m < t.low v → ∃ y ∈ t₀.stack, t.number y = m ∧ g.Reaches v y) :
    Inside g p₀ t₀ s₀ v seen (t.lower v m) s := by
  have hlow : (t.lower v m).low v = min (t.low v) m := by
    rw [low_lower h.tracks.sized hv, if_pos rfl]
  refine ⟨h.tracks.lower v m, h.sound, h.nextIndex, h.entered, h.self, h.room, h.pending, h.number,
    ?_, h.fresh, h.stack, ?_, ?_, ?_⟩
  · intro w hw
    have hne : w ≠ v := by
      intro heq
      exact hnew (heq ▸ hw)
    rw [low_lower h.tracks.sized hv, if_neg hne]
    exact h.low w hw
  · by_cases hlt : m < t.low v
    · obtain ⟨y, hy, hnumber, hr⟩ := hm hlt
      exact ⟨y, .inr hy, by rw [number_lower, hlow, hnumber]; omega, hr⟩
    · obtain ⟨y, hy, hnumber, hr⟩ := h.reached
      exact ⟨y, hy, by rw [number_lower, hlow, hnumber]; omega, hr⟩
  · intro w hw hw' hwv y hy edge
    have hle := h.least w hw hw' hwv y hy edge
    rw [hlow, number_lower]
    omega
  · intro y hy hy'
    have hle := h.least_seen y hy hy'
    rw [hlow, number_lower]
    omega

/-- Looking at a successor that was visited before. -/
theorem Inside.follow_visited {index : Nat} (h : Inside g p₀ t₀ s₀ v seen t s) (hv : v < g.size)
    (hnew : v ∉ s₀.entered) (edge : g.Edge v w) (hindex : t.index? w = some index) :
    Inside g p₀ t₀ s₀ v (seen ++ [w])
      (if t.isOnStack w then t.lower v index else t) s := by
  have hnumber : t.number w = index := by rw [Resolver.number, hindex, Option.getD_some]
  have hstack : t₀.stack ⊆ t.stack := by
    obtain ⟨above, hstack, -⟩ := h.stack
    rw [hstack]
    intro y hy
    simp [hy]
  by_cases hon : t.isOnStack w
  · rw [if_pos hon]
    have hlow : (t.lower v index).low v = min (t.low v) index := by
      rw [low_lower h.tracks.sized hv, if_pos rfl]
    have hlower := h.lower hv hnew (m := index) fun hlt => by
      have hlt' : t.number w < t.number v := by
        have hle := h.low_le_number
        omega
      exact ⟨w, h.mem_of_number_lt ((h.tracks.isOnStack w).1 hon) hlt', hnumber, .single edge⟩
    refine { hlower with least_seen := fun y hy hy' => ?_ }
    rcases List.mem_append.1 hy with hy | hy
    · exact hlower.least_seen y hy hy'
    · obtain rfl := List.mem_singleton.1 hy
      rw [hlow, number_lower, hnumber]
      omega
  · rw [if_neg hon]
    refine { h with least_seen := fun y hy hy' => ?_ }
    rcases List.mem_append.1 hy with hy | hy
    · exact h.least_seen y hy hy'
    · obtain rfl := List.mem_singleton.1 hy
      exact absurd ((h.tracks.isOnStack y).2 (hstack hy')) hon

/-- Visiting a successor that was not visited before. -/
theorem Inside.follow_new (h : Inside g p₀ t₀ s₀ v seen t s) (hv : v < g.size)
    (hnew : v ∉ s₀.entered) (edge : g.Edge v w) (hw : w ∉ s.entered)
    (hconnects : Connects g p₀ t s w t' s') (hextends : Extends g [w] s s') :
    Inside g p₀ t₀ s₀ v (seen ++ [w]) (t'.lower v (t'.low w)) s' := by
  obtain ⟨above, hstack, habove⟩ := h.stack
  obtain ⟨above', hstack', habove'⟩ := hconnects.stack
  have hold {y : Nat} (hy : y ∈ t₀.stack) : y ∈ t.stack := by simp [hstack, hy]
  have hnumber {y : Nat} (hy : y ∈ t.stack) : t'.number y = t.number y :=
    hconnects.number y (h.tracks.entered hy)
  have hself : v ∈ t.stack := by simp [hstack]
  have hvisited {y : Nat} (hy : y ∈ s.entered) : y ∈ s'.entered := hextends.entered.subset hy
  have hlow : (t'.lower v (t'.low w)).low v = min (t.low v) (t'.low w) := by
    rw [low_lower hconnects.tracks.sized hv, if_pos rfl, hconnects.low v h.self]
  refine ⟨hconnects.tracks.lower v _, hextends.sound, Nat.le_trans h.nextIndex hconnects.nextIndex,
    fun y hy => hvisited (h.entered y hy), hvisited h.self, ?_,
    fun p => (hextends.pending p).trans (h.pending p), ?_, ?_, ?_,
    ⟨above' ++ above, ?_, ?_⟩, ?_, ?_, ?_⟩
  · exact Nat.lt_of_lt_of_le h.room hextends.entered.length_le
  · intro y hy
    rw [number_lower, hconnects.number y (h.entered y hy), h.number y hy]
  · intro y hy
    have hne : y ≠ v := by
      intro heq
      exact hnew (heq ▸ hy)
    rw [low_lower hconnects.tracks.sized hv, if_neg hne, hconnects.low y (h.entered y hy), h.low y hy]
  · intro y hy hy'
    rw [number_lower]
    by_cases hys : y ∈ s.entered
    · rw [hconnects.number y hys]
      exact h.fresh y hys hy'
    · exact Nat.le_trans h.nextIndex (hconnects.fresh y hy hys)
  · change t'.stack = _
    rw [hstack', hstack, List.append_assoc]
  · intro y hy
    rcases List.mem_append.1 hy with hy | hy
    · intro hy'
      exact habove' y hy (h.entered y hy')
    · exact habove y hy
  · by_cases hlt : t'.low w < t.low v
    · -- the slot that `w` leads back to was there before `v`
      obtain ⟨y, hy, hylow, hr⟩ := hconnects.reached
      have hlt' : t'.number y < t.number v := by
        have hle := h.low_le_number
        omega
      rcases hy with rfl | hy
      · have hfresh := hconnects.fresh y (hextends.roots_entered y (by simp)) hw
        have hnext := h.tracks.lt_next v h.self
        omega
      · have hmem := h.mem_of_number_lt hy (hnumber hy ▸ hlt')
        exact ⟨y, .inr hmem, by rw [number_lower, hlow, hylow]; omega, .head edge hr⟩
    · obtain ⟨y, hy, hylow, hr⟩ := h.reached
      have hmem : y ∈ t.stack := hy.elim (fun heq => heq ▸ hself) hold
      exact ⟨y, hy, by rw [number_lower, hlow, hnumber hmem, hylow]; omega, hr⟩
  · intro x hx hx' hxv y hy edge
    rw [hlow, number_lower, hnumber (hold hy)]
    by_cases hxs : x ∈ s.entered
    · have hle := h.least x hxs hx' hxv y hy edge
      omega
    · have hle := hconnects.least x hx hxs y (hold hy) edge
      rw [hnumber (hold hy)] at hle
      omega
  · intro y hy hy'
    rw [hlow, number_lower, hnumber (hold hy')]
    rcases List.mem_append.1 hy with hy | hy
    · have hle := h.least_seen y hy hy'
      omega
    · obtain rfl := List.mem_singleton.1 hy
      exact absurd (h.tracks.entered (hold hy')) hw

/-- A slot whose low link is the number of another leads back to one that the search is not done
with. -/
theorem Inside.linked_of_low_ne (h : Inside g p₀ t₀ s₀ v seen t s) (h₀ : Tracks g p₀ t₀ s₀)
    (hpending : ∀ p, s₀.Pending p → g.Reaches p v) (hlow : t.low v ≠ t.number v) :
    ∃ p, s₀.Pending p ∧ g.Linked v p := by
  obtain ⟨y, hy, hnumber, hr⟩ := h.reached
  rcases hy with rfl | hy
  · exact absurd hnumber.symm hlow
  · obtain ⟨-, p, hp, hlink⟩ := (h₀.stack y).1 hy
    exact ⟨p, hp, hr.trans hlink.1, hpending p hp⟩

end Resolver

end Stubsmith
