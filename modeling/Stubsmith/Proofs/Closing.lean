import Stubsmith.Proofs.LowLink

namespace Stubsmith

namespace Resolver

open Stubsmith.Graph Stubsmith.Search

variable {g : Graph} {p₀ : Placement} {t t₀ : Resolver} {s s₀ : Search} {v w : Nat} {seen : List Nat}

/-- What a closed slot leads to was closed before. -/
theorem Tracks.not_mem_stack_of_reaches (h : Tracks g p₀ t s) (hs : s.Sound g) (hv : v ∈ s.entered)
    (hstack : v ∉ t.stack) (hr : g.Reaches v w) : w ∈ s.finished ∧ w ∉ t.stack := by
  have hvf : v ∈ s.finished := by
    by_contra hvf
    exact hstack ((h.stack v).2 ⟨hv, v, ⟨hv, hvf⟩, .refl g v⟩)
  have hfinished {x : Nat} (hx : g.Reaches v x) : x ∈ s.finished := by
    rcases hs.settled s.finished [] (by simp) v hvf x hx with hx | ⟨y, hy | hy, hlink⟩
    · exact hx
    · simp at hy
    · exact absurd ((h.stack v).2 ⟨hv, y, hy, hlink⟩) hstack
  refine ⟨hfinished hr, ?_⟩
  intro hw
  obtain ⟨-, p, hp, hlink⟩ := (h.stack w).1 hw
  exact hp.2 (hfinished (hr.trans hlink.1))

/-- Once the slot at hand is left, the search is not done with what it was not done with before. -/
theorem Inside.pending_finish_iff (h : Inside g p₀ t₀ s₀ v seen t s) (hnew : v ∉ s₀.entered)
    {p : Nat} : Pending { s with finished := s.finished ++ [v] } p ↔ s₀.Pending p := by
  rw [Search.pending_finish_iff, h.pending p]
  constructor
  · intro h
    rcases h with ⟨heq | hp, hne⟩
    · exact absurd heq hne
    · exact hp
  · intro hp
    exact ⟨.inr hp, fun heq => hnew (heq ▸ hp.1)⟩

section

variable (h : Inside g p₀ t₀ s₀ v (g.next v) t s) (h₀ : Tracks g p₀ t₀ s₀) (hs₀ : s₀.Sound g)
  (hnew : v ∉ s₀.entered) (hnext : ∀ w, g.Edge v w → w ∈ s.entered)

include h h₀ hs₀ hnew hnext

/-- A slot that leads back to no lower number leads to new slots and to closed ones only. -/
theorem Inside.new_or_closed (hlow : t.low v = t.number v) (hr : g.Reaches v w) :
    (w ∈ s.entered ∧ w ∉ s₀.entered) ∨ (w ∈ s₀.entered ∧ w ∉ t₀.stack) := by
  induction hr with
  | refl => exact .inl ⟨h.self, hnew⟩
  | @tail x y _ edge ih =>
    rcases ih with ⟨hx, hx₀⟩ | ⟨hx, hxs⟩
    · have hy : y ∈ s.entered := by
        by_cases hxv : x = v
        · exact hnext y (hxv ▸ edge)
        · have hxf : x ∈ s.finished := by
            by_contra hxf
            rcases (h.pending x).1 ⟨hx, hxf⟩ with heq | hp
            · exact hxv heq
            · exact hx₀ hp.1
          exact h.sound.closed x hxf y edge
      by_cases hy₀ : y ∈ s₀.entered
      · refine .inr ⟨hy₀, ?_⟩
        intro hys
        -- the low link of `v` is no higher than the number of `y`, which is lower than that of `v`
        have hle : t.low v ≤ t.number y := by
          by_cases hxv : x = v
          · exact h.least_seen y (hxv ▸ edge) hys
          · exact h.least x hx hx₀ hxv y hys edge
        have hlt := h.number_lt hys
        omega
      · exact .inl ⟨hy, hy₀⟩
    · obtain ⟨hyf, hys⟩ := h₀.not_mem_stack_of_reaches hs₀ hx hxs (.single edge)
      exact .inr ⟨hs₀.finished_entered y hyf, hys⟩

theorem Inside.not_reaches_pending (hlow : t.low v = t.number v) {p : Nat} (hp : s₀.Pending p) :
    ¬g.Reaches v p := by
  intro hr
  rcases h.new_or_closed h₀ hs₀ hnew hnext hlow hr with ⟨-, hp₀⟩ | ⟨hp₀, hps⟩
  · exact hp₀ hp.1
  · exact hps ((h₀.stack p).2 ⟨hp₀, p, hp, .refl g p⟩)

/-- The slots above a slot that leads back to no lower number are those that it is linked to. -/
theorem Inside.mem_above_iff (hlow : t.low v = t.number v)
    (hfrom : ∀ w ∈ s.finished, w ∉ s₀.finished → g.Reaches v w) {above : List Nat}
    (hstack : t.stack = above ++ v :: t₀.stack) (habove : ∀ w ∈ above, w ∉ s₀.entered) :
    w ∈ above ++ [v] ↔ g.Linked v w := by
  constructor
  · intro hw
    rcases List.mem_append.1 hw with hw | hw
    · obtain ⟨hws, p, hp, hlink⟩ := (h.tracks.stack w).1 (by simp [hstack, hw])
      have hw₀ := habove w hw
      have hr : g.Reaches v w := by
        by_cases hwf : w ∈ s.finished
        · exact hfrom w hwf fun hw' => hw₀ (hs₀.finished_entered w hw')
        · rcases (h.pending w).1 ⟨hws, hwf⟩ with rfl | hp
          · exact .refl
          · exact absurd hp.1 hw₀
      rcases (h.pending p).1 hp with rfl | hp
      · exact hlink.symm
      · exact absurd (hr.trans hlink.1) (h.not_reaches_pending h₀ hs₀ hnew hnext hlow hp)
    · obtain rfl := List.mem_singleton.1 hw
      exact .refl g w
  · intro hlink
    rcases h.new_or_closed h₀ hs₀ hnew hnext hlow hlink.1 with ⟨hw, hw₀⟩ | ⟨hw, hws⟩
    · have hmem : w ∈ t.stack :=
        (h.tracks.stack w).2 ⟨hw, v, (h.pending v).2 (.inl rfl), hlink.symm⟩
      rw [hstack] at hmem
      have hw' : w ∉ t₀.stack := by
        intro h'
        exact hw₀ (h₀.entered h')
      simpa [hw'] using hmem
    · obtain ⟨hvf, -⟩ := h₀.not_mem_stack_of_reaches hs₀ hw hws hlink.2
      exact absurd (hs₀.finished_entered v hvf) hnew

/-- A slot that leads back to no lower number is closed with the slots above it. -/
theorem Inside.close (hc : g.Closed) (hv : v < g.size) (hlow : t.low v = t.number v)
    (hfrom : ∀ w ∈ s.finished, w ∉ s₀.finished → g.Reaches v w) :
    Tracks g p₀ (t.close v) { s with finished := s.finished ++ [v] } ∧
      (t.close v).stack = t₀.stack := by
  obtain ⟨above, hstack, habove⟩ := h.stack
  have hmem (w : Nat) : w ∈ above ++ [v] ↔ g.Linked v w :=
    h.mem_above_iff h₀ hs₀ hnew hnext hlow hfrom hstack habove
  have hvp : s.Pending v := (h.pending v).2 (.inl rfl)
  have hsplit : t.stack = (above ++ [v]) ++ t₀.stack := by simp [hstack]
  obtain ⟨hmembers, -, hapart⟩ := List.nodup_append.1 (hsplit ▸ h.tracks.nodup_stack)
  have hsorted := h.tracks.sorted
  rw [hsplit] at hsorted
  have hva : v ∉ above := by
    intro hv
    exact (List.nodup_append.1 hmembers).2.2 v hv v (by simp) rfl
  have hroots : roots g { s with finished := s.finished ++ [v] } = roots g s ++ [v] := by
    apply roots_finish_of_not_linked hc h.sound hvp
    intro p hp hpv hlink
    exact h.not_reaches_pending h₀ hs₀ hnew hnext hlow (((h.pending p).1 hp).resolve_left hpv) hlink.1
  rw [close_eq hstack hva]
  refine ⟨⟨⟨h.tracks.sized.visitIndex, h.tracks.sized.lowLink, ?_⟩, h.tracks.visited,
    h.tracks.lt_next, (List.pairwise_append.1 hsorted).2.1, ?_, ?_, ?_⟩, rfl⟩
  · exact (length_foldl_set_false _ _).trans h.tracks.sized.onStack
  · intro w
    have hlt : ∀ m ∈ above ++ [v], m < t.onStack.length := by
      intro m hm
      have hmt : m ∈ t.stack := hsplit ▸ List.mem_append_left _ hm
      rw [h.tracks.sized.onStack]
      exact h.sound.entered_lt m (h.tracks.entered hmt)
    change (((above ++ [v]).foldl (fun on member => on.set member false) t.onStack).getD w false =
      true) ↔ w ∈ t₀.stack
    rw [getD_foldl_set_false hlt]
    by_cases hw : w ∈ above ++ [v]
    · have hw' : w ∉ t₀.stack := by
        intro hw'
        exact hapart w hw w hw' rfl
      simp only [hw, if_true, hw', Bool.false_eq_true]
    · rw [if_neg hw]
      have hon := h.tracks.isOnStack w
      rw [isOnStack, hsplit, List.mem_append] at hon
      exact hon.trans (or_iff_right hw)
  · intro w
    change w ∈ t₀.stack ↔ w ∈ s.entered ∧ _
    constructor
    · intro hw
      obtain ⟨hw₀, p, hp, hlink⟩ := (h₀.stack w).1 hw
      exact ⟨h.entered w hw₀, p, (h.pending_finish_iff hnew).2 hp, hlink⟩
    · intro h
      obtain ⟨hw, p, hp, hlink⟩ := h
      have hp₀ := (h.pending_finish_iff hnew).1 hp
      have hws : w ∈ t.stack := (h.tracks.stack w).2 ⟨hw, p, (h.pending p).2 (.inr hp₀), hlink⟩
      rw [hsplit, List.mem_append] at hws
      apply hws.resolve_left
      intro hwa
      exact h.not_reaches_pending h₀ hs₀ hnew hnext hlow hp₀ (((hmem w).1 hwa).1.trans hlink.1)
  · change ((above ++ [v]).mergeSort (· ≤ ·)).foldl Placement.emit t.placement = _
    rw [mergeSort_eq_partners hc hv hmembers hmem, h.tracks.placement, hroots,
      List.flatMap_append, List.foldl_append, List.flatMap_singleton]

end

/-- A slot that leads back to a lower number stays on the stack. -/
theorem Inside.leave_open (h : Inside g p₀ t₀ s₀ v seen t s) (h₀ : Tracks g p₀ t₀ s₀)
    (hnew : v ∉ s₀.entered) (hc : g.Closed) (hpending : ∀ p, s₀.Pending p → g.Reaches p v)
    (hlow : t.low v ≠ t.number v) :
    Tracks g p₀ t { s with finished := s.finished ++ [v] } := by
  obtain ⟨q, hq, hvq⟩ := h.linked_of_low_ne h₀ hpending hlow
  have hqv : q ≠ v := by
    intro heq
    exact hnew (heq ▸ hq.1)
  have hqs : s.Pending q := (h.pending q).2 (.inr hq)
  refine ⟨h.tracks.sized, h.tracks.visited, h.tracks.lt_next, h.tracks.sorted, h.tracks.isOnStack,
    ?_, ?_⟩
  · intro w
    rw [h.tracks.stack w]
    constructor
    · intro h
      obtain ⟨hw, p, hp, hlink⟩ := h
      by_cases hpv : p = v
      · exact ⟨hw, q, Search.pending_finish_iff.2 ⟨hqs, hqv⟩, (hpv ▸ hlink).trans hvq⟩
      · exact ⟨hw, p, Search.pending_finish_iff.2 ⟨hp, hpv⟩, hlink⟩
    · intro h
      obtain ⟨hw, p, hp, hlink⟩ := h
      exact ⟨hw, p, (Search.pending_finish_iff.1 hp).1, hlink⟩
  · rw [roots_finish_of_linked hc h.sound ((h.pending v).2 (.inl rfl)) ⟨q, hqs, hqv, hvq⟩]
    exact h.tracks.placement

theorem Inside.connects (h : Inside g p₀ t₀ s₀ v (g.next v) t s) (h₀ : Tracks g p₀ t₀ s₀)
    (hs₀ : s₀.Sound g) (hc : g.Closed) (hv : v < g.size) (hnew : v ∉ s₀.entered)
    (hnext : ∀ w, g.Edge v w → w ∈ s.entered) (hpending : ∀ p, s₀.Pending p → g.Reaches p v)
    (hfrom : ∀ w ∈ s.finished, w ∉ s₀.finished → g.Reaches v w) :
    Connects g p₀ t₀ s₀ v (if t.index? v = some (t.low v) then t.close v else t)
      { s with finished := s.finished ++ [v] } := by
  have least : ∀ w ∈ s.entered, w ∉ s₀.entered → ∀ y ∈ t₀.stack, g.Edge w y →
      t.low v ≤ t.number y := by
    intro w hw hw₀ y hy edge
    by_cases hwv : w = v
    · exact h.least_seen y (hwv ▸ edge) hy
    · exact h.least w hw hw₀ hwv y hy edge
  have hindex : t.index? v = some (t.low v) ↔ t.low v = t.number v := by
    obtain ⟨index, hindex⟩ := Option.isSome_iff_exists.1 ((h.tracks.visited v).2 h.self)
    rw [Resolver.number, hindex, Option.getD_some, Option.some.injEq, eq_comm]
  by_cases hlow : t.low v = t.number v
  · rw [if_pos (hindex.2 hlow)]
    obtain ⟨hclose, hstack⟩ := h.close h₀ hs₀ hnew hnext hc hv hlow hfrom
    exact ⟨hclose, h.nextIndex, h.number, h.low, h.fresh, ⟨[], hstack, by simp⟩, h.reached, least⟩
  · rw [if_neg (mt hindex.1 hlow)]
    obtain ⟨above, hstack, habove⟩ := h.stack
    refine ⟨h.leave_open h₀ hnew hc hpending hlow, h.nextIndex, h.number, h.low, h.fresh,
      ⟨above ++ [v], by simp [hstack], fun w hw => ?_⟩, h.reached, least⟩
    rcases List.mem_append.1 hw with hw | hw
    · exact habove w hw
    · obtain rfl := List.mem_singleton.1 hw
      exact hnew

theorem Inside.follow {depth : Nat} (h : Inside g p₀ t₀ s₀ v seen t s) (hv : v < g.size)
    (hnew : v ∉ s₀.entered) (edge : g.Edge v w)
    (hconnect : w ∉ s.entered →
      Connects g p₀ t s w (connect g depth t w) (g.explore depth s w) ∧
        Extends g [w] s (g.explore depth s w)) :
    Inside g p₀ t₀ s₀ v (seen ++ [w]) (Resolver.follow (connect g depth) v t w)
      (g.explore depth s w) := by
  rw [Resolver.follow]
  cases hindex : t.index? w with
  | none =>
    have hw : w ∉ s.entered := by
      intro hw
      simpa [hindex] using (h.tracks.visited w).2 hw
    obtain ⟨hconnects, hextends⟩ := hconnect hw
    exact h.follow_new hv hnew edge hw hconnects hextends
  | some index =>
    have hw : w ∈ s.entered := (h.tracks.visited w).1 (by simp [hindex])
    rw [explore_of_entered hw]
    exact h.follow_visited hv hnew edge hindex

theorem Inside.foldl_follow {depth : Nat} {ws : List Nat} (h : Inside g p₀ t₀ s₀ v seen t s)
    (hc : g.Closed) (hv : v < g.size) (hnew : v ∉ s₀.entered)
    (hpending : ∀ p, s₀.Pending p → g.Reaches p v) (hws : ∀ w ∈ ws, g.Edge v w)
    (hconnect : ∀ t s w, Tracks g p₀ t s → s.Sound g → w < g.size → w ∉ s.entered →
      (∀ p, s.Pending p → g.Reaches p w) → s₀.entered.length < s.entered.length →
      Connects g p₀ t s w (connect g depth t w) (g.explore depth s w) ∧
        Extends g [w] s (g.explore depth s w)) :
    Inside g p₀ t₀ s₀ v (seen ++ ws) (ws.foldl (Resolver.follow (connect g depth) v) t)
      (ws.foldl (g.explore depth) s) := by
  induction ws generalizing seen t s with
  | nil => simpa using h
  | cons w ws ih =>
    have edge : g.Edge v w := hws w (by simp)
    have hreach : ∀ p, s.Pending p → g.Reaches p w := by
      intro p hp
      rcases (h.pending p).1 hp with rfl | hp
      · exact .single edge
      · exact (hpending p hp).tail edge
    have first := h.follow hv hnew edge fun hw =>
      hconnect t s w h.tracks h.sound (hc v w edge) hw hreach h.room
    have rest := ih first fun x hx => hws x (by simp [hx])
    rwa [List.append_assoc] at rest

/-- A bounded visit goes where a bounded search goes, and closes the components that it is done
with. -/
theorem connects_connect (hc : g.Closed) {depth : Nat} (h : Tracks g p₀ t s) (hs : s.Sound g)
    (hv : v < g.size) (hnew : v ∉ s.entered) (hpending : ∀ p, s.Pending p → g.Reaches p v)
    (hd : g.size ≤ s.entered.length + depth) :
    Connects g p₀ t s v (connect g depth t v) (g.explore depth s v) := by
  induction depth generalizing t s v with
  | zero => exact absurd (mem_entered_of_size_le hs (by simpa using hd) hv) hnew
  | succ depth ih =>
    have hexplore : g.explore (depth + 1) s v =
        let below := (g.next v).foldl (g.explore depth) { s with entered := v :: s.entered }
        { below with finished := below.finished ++ [v] } := by
      simp [explore, hnew]
    rw [hexplore, connect]
    have hinside : Inside g p₀ t s v (g.next v)
        ((g.next v).foldl (Resolver.follow (connect g depth) v) (t.enter v))
        ((g.next v).foldl (g.explore depth) { s with entered := v :: s.entered }) := by
      have h₁ := Inside.enter hc h hs hv hnew
      apply h₁.foldl_follow hc hv hnew hpending (fun _ hw => hw)
      intro t₁ s₁ w ht hs₁ hw hw₁ hp hroom
      have hd₁ : g.size ≤ s₁.entered.length + depth := by omega
      exact ⟨ih ht hs₁ hw hw₁ hp hd₁, explore_extends hc hs₁ hw hp hd₁⟩
    have hbelow : Extends g (g.next v) { s with entered := v :: s.entered }
        ((g.next v).foldl (g.explore depth) { s with entered := v :: s.entered }) :=
      extends_next hc hs hv hnew hpending fun t w ht hw hp hn =>
        explore_extends hc ht hw hp (by omega)
    obtain ⟨new, hfinished, hfrom⟩ := hbelow.finished
    apply hinside.connects h hs hc hv hnew (fun w hw => hbelow.roots_entered w hw) hpending
    intro w hw hw₀
    rw [hfinished] at hw
    obtain ⟨u, hu, hr⟩ := hfrom w ((List.mem_append.1 hw).resolve_left hw₀)
    exact .head hu hr

theorem tracks_visit (hc : g.Closed) {depth : Nat} (h : Tracks g p₀ t s) (hs : s.Sound g)
    (hv : v < g.size) (hpending : ∀ p, ¬s.Pending p) (hd : g.size ≤ depth) :
    Tracks g p₀ (visit g depth t v) (g.explore depth s v) := by
  rw [visit]
  by_cases hmem : v ∈ s.entered
  · obtain ⟨index, hindex⟩ := Option.isSome_iff_exists.1 ((h.visited v).2 hmem)
    rw [explore_of_entered hmem, if_neg (by simp [hindex])]
    exact h
  · have hnone : (t.index? v).isNone := by
      have hnot := mt (h.visited v).1 hmem
      simpa using hnot
    rw [if_pos hnone]
    exact (connects_connect hc h hs hv hmem (fun p hp => absurd hp (hpending p)) (by omega)).tracks

theorem tracks_foldl_visit (hc : g.Closed) {depth : Nat} {vs : List Nat} (h : Tracks g p₀ t s)
    (hs : s.Sound g) (hvs : ∀ v ∈ vs, v < g.size) (hpending : ∀ p, ¬s.Pending p)
    (hd : g.size ≤ depth) :
    Tracks g p₀ (vs.foldl (visit g depth) t) (vs.foldl (g.explore depth) s) := by
  induction vs generalizing t s with
  | nil => exact h
  | cons v vs ih =>
    have hv := hvs v (by simp)
    have hextends : Extends g [v] s (g.explore depth s v) :=
      explore_extends hc hs hv (fun p hp => absurd hp (hpending p)) (by omega)
    exact ih (tracks_visit hc h hs hv hpending hd) hextends.sound (fun w hw => hvs w (by simp [hw]))
      fun p hp => hpending p ((hextends.pending p).1 hp)

theorem tracks_start {slots : List (Option Descriptor)} (h : slots.length = g.size) :
    Tracks g { slots := slots } (start slots) {} where
  sized := ⟨by simp [start, h], by simp [start, h], by simp [start, h]⟩
  visited v := by
    rw [index?, start, List.getD_eq_getElem?_getD, List.getElem?_getD_replicate_default_eq]
    simp
  lt_next := by simp
  sorted := .nil
  isOnStack v := by
    rw [isOnStack, start, List.getD_eq_getElem?_getD, List.getElem?_getD_replicate_default_eq]
    simp
  stack := by simp [start]
  placement := rfl

/-- A resolver that visits all slots writes the components in the order of their emission. -/
theorem placement_foldl_visit (hc : g.Closed) {depth : Nat} (hd : g.size ≤ depth)
    {slots : List (Option Descriptor)} (h : slots.length = g.size) :
    ((List.range g.size).foldl (visit g depth) (start slots)).placement =
      g.emission.foldl .emit { slots := slots } := by
  have hlt : ∀ v ∈ List.range g.size, v < g.size := by
    intro v hv
    exact List.mem_range.1 hv
  have htracks := tracks_foldl_visit hc (tracks_start h) (.empty g) hlt not_pending_empty hd
  rw [foldl_explore_eq hc hd hlt] at htracks
  have hnone : pendingList ((List.range g.size).foldl (g.explore g.size) {}) = [] :=
    List.eq_nil_iff_forall_not_mem.2 fun v hv => search_not_pending hc v (mem_pendingList.1 hv)
  rw [htracks.placement, roots, hnone, List.flatMap_def]
  rfl

end Resolver

end Stubsmith
