import Stubsmith.Proofs.Search

namespace Stubsmith.Graph

variable {g : Graph} {u v w : Nat}

def joined (g : Graph) (u v : Nat) : Bool :=
  (g.reachable u).contains v && (g.reachable v).contains u

/-- The vertices that reach a vertex and are reached from it, in rising order. -/
def partners (g : Graph) (v : Nat) : List Nat :=
  (List.range g.size).filter (g.joined v)

/-- The vertices of a list that have no partner behind them, in the list or in what comes after it.
-/
def leaders (g : Graph) (after : List Nat) : List Nat → List Nat
  | [] => []
  | v :: rest =>
    if (rest ++ after).any (g.joined v) then leaders g after rest else v :: leaders g after rest

/-- The components in the order in which a search is done with all of a component. -/
def components (g : Graph) : List (List Nat) :=
  (g.leaders [] g.finishOrder).map g.partners

/-- All vertices, component after component. -/
def emission (g : Graph) : List Nat :=
  g.components.flatten

theorem joined_iff (hc : g.Closed) (hu : u < g.size) (hv : v < g.size) :
    g.joined u v ↔ g.Linked u v := by
  simp [joined, mem_reachable_iff hc hu, mem_reachable_iff hc hv, Linked]

theorem mem_partners_iff (hc : g.Closed) (hu : u < g.size) : v ∈ g.partners u ↔ g.Linked u v := by
  simp only [partners, List.mem_filter, List.mem_range]
  constructor
  · intro h
    obtain ⟨hv, h⟩ := h
    exact (joined_iff hc hu hv).1 h
  · intro h
    have hv := hc.reaches_lt h.1 hu
    exact ⟨hv, (joined_iff hc hu hv).2 h⟩

theorem leaders_sublist (g : Graph) (after l : List Nat) : (g.leaders after l).Sublist l := by
  induction l with
  | nil => simp [leaders]
  | cons v rest ih =>
    rw [leaders]
    split
    · exact ih.cons v
    · exact ih.cons_cons v

theorem leaders_congr {after after' : List Nat} (h : ∀ x, x ∈ after ↔ x ∈ after') (l : List Nat) :
    g.leaders after l = g.leaders after' l := by
  induction l with
  | nil => rfl
  | cons v rest ih =>
    have hany : (rest ++ after).any (g.joined v) = (rest ++ after').any (g.joined v) := by
      rw [Bool.eq_iff_iff]
      simp [h]
    rw [leaders, leaders, hany, ih]

theorem leaders_append (after l m : List Nat) :
    g.leaders after (l ++ m) = g.leaders (m ++ after) l ++ g.leaders after m := by
  induction l with
  | nil => rfl
  | cons v rest ih =>
    simp only [List.cons_append, leaders, List.append_assoc, ih]
    split <;> rfl

/-- The partners of a vertex are what a list of them holds when it is put in order. -/
theorem mergeSort_eq_partners (hc : g.Closed) (hv : v < g.size) {members : List Nat}
    (hnodup : members.Nodup) (hmem : ∀ w, w ∈ members ↔ g.Linked v w) :
    members.mergeSort (· ≤ ·) = g.partners v := by
  have hpartners : (g.partners v).Pairwise (· < ·) := List.pairwise_lt_range.filter _
  have hperm : (members.mergeSort (· ≤ ·)).Perm (g.partners v) := by
    apply (List.mergeSort_perm members _).trans
    apply (List.perm_ext_iff_of_nodup hnodup (hpartners.imp Nat.ne_of_lt)).2
    intro w
    rw [hmem, mem_partners_iff hc hv]
  have hsorted : (members.mergeSort (· ≤ ·)).Pairwise (· ≤ ·) := by
    have h : (members.mergeSort (· ≤ ·)).Pairwise fun a b => decide (a ≤ b) :=
      List.pairwise_mergeSort (fun a b c => by simpa using Nat.le_trans)
        (fun a b => by simpa using Nat.le_total a b) members
    simpa using h
  exact hperm.eq_of_pairwise (fun _ _ _ _ => Nat.le_antisymm) hsorted
    (hpartners.imp Nat.le_of_lt)

theorem exists_leader (hc : g.Closed) {l : List Nat} (hl : ∀ x ∈ l, x < g.size) (hv : v ∈ l) :
    ∃ x ∈ g.leaders [] l, g.Linked v x := by
  induction l generalizing v with
  | nil => simp at hv
  | cons z rest ih =>
    have hrest : ∀ x ∈ rest, x < g.size := by
      intro x hx
      exact hl x (by simp [hx])
    rw [leaders, List.append_nil]
    split
    · next h =>
      obtain ⟨x, hx, hjoined⟩ := List.any_eq_true.1 h
      rcases List.mem_cons.1 hv with rfl | hv
      · have hlink := (joined_iff hc (hl v (by simp)) (hrest x hx)).1 hjoined
        obtain ⟨y, hy, hxy⟩ := ih hrest hx
        exact ⟨y, hy, hlink.trans hxy⟩
      · exact ih hrest hv
    · rcases List.mem_cons.1 hv with rfl | hv
      · exact ⟨v, by simp, .refl g v⟩
      · obtain ⟨y, hy, hvy⟩ := ih hrest hv
        exact ⟨y, by simp [hy], hvy⟩

section components

variable (hc : g.Closed)

include hc

theorem lt_of_mem_leaders (h : v ∈ g.leaders [] g.finishOrder) : v < g.size :=
  (mem_finishOrder_iff hc).1 ((leaders_sublist _ _ _).subset h)

/-- No leader reaches a later one. -/
theorem pairwise_leaders {l₁ l₂ : List Nat} (h : g.finishOrder = l₁ ++ l₂) :
    (g.leaders [] l₂).Pairwise fun x y => ¬g.Reaches x y := by
  induction l₂ generalizing l₁ with
  | nil => simp [leaders]
  | cons z rest ih =>
    have hz : g.finishOrder = (l₁ ++ [z]) ++ rest := by simpa using h
    have hlt {x : Nat} (hx : x ∈ z :: rest) : x < g.size :=
      (mem_finishOrder_iff hc).1 (by rw [h]; exact List.mem_append_right _ hx)
    rw [leaders, List.append_nil]
    split
    · exact ih hz
    · next hnone =>
      refine List.pairwise_cons.2 ⟨fun x hx hr => hnone ?_, ih hz⟩
      obtain ⟨y, hy, hlink⟩ :=
        linked_of_reaches hc hz (by simp) ((leaders_sublist _ _ _).subset hx) hr
      exact List.any_eq_true.2
        ⟨y, hy, (joined_iff hc (hlt (by simp)) (hlt (by simp [hy]))).2 hlink⟩

theorem mem_component_iff {c : List Nat} (h : c ∈ g.components) (hu : u ∈ c) :
    v ∈ c ↔ g.Linked u v := by
  obtain ⟨x, hx, rfl⟩ := List.mem_map.1 h
  have hlt := lt_of_mem_leaders hc hx
  rw [mem_partners_iff hc hlt] at hu ⊢
  exact ⟨fun hv => hu.symm.trans hv, fun hv => hu.trans hv⟩

theorem component_ne_nil {c : List Nat} (h : c ∈ g.components) : c ≠ [] := by
  obtain ⟨x, hx, rfl⟩ := List.mem_map.1 h
  exact List.ne_nil_of_mem
    ((mem_partners_iff hc (lt_of_mem_leaders hc hx)).2 (.refl g x))

omit hc in
theorem component_sublist {c : List Nat} (h : c ∈ g.components) :
    c.Sublist (List.range g.size) := by
  obtain ⟨x, hx, rfl⟩ := List.mem_map.1 h
  simp [partners]

/-- No component reaches a later one. -/
theorem pairwise_components :
    g.components.Pairwise fun c d => ∀ x ∈ c, ∀ y ∈ d, ¬g.Reaches x y := by
  refine List.pairwise_map.2 ((pairwise_leaders hc (List.nil_append _).symm).imp_of_mem ?_)
  intro u v hu hv hr x hx y hy hxy
  have hux := (mem_partners_iff hc (lt_of_mem_leaders hc hu)).1 hx
  have hvy := (mem_partners_iff hc (lt_of_mem_leaders hc hv)).1 hy
  exact hr (hux.1.trans (hxy.trans hvy.2))

theorem mem_emission_iff : v ∈ g.emission ↔ v < g.size := by
  rw [emission, List.mem_flatten]
  constructor
  · intro h
    obtain ⟨c, hcomp, hv⟩ := h
    exact List.mem_range.1 ((component_sublist hcomp).subset hv)
  · intro hv
    obtain ⟨x, hx, hlink⟩ := exists_leader hc (fun _ h => (mem_finishOrder_iff hc).1 h)
      ((mem_finishOrder_iff hc).2 hv)
    exact ⟨_, List.mem_map_of_mem hx,
      (mem_partners_iff hc (lt_of_mem_leaders hc hx)).2 hlink.symm⟩

theorem nodup_emission : g.emission.Nodup := by
  rw [emission]
  refine List.pairwise_flatten.2
    ⟨fun c h => List.nodup_range.sublist (component_sublist h), ?_⟩
  apply (pairwise_components hc).imp
  intro c d h x hx y hy hxy
  exact h x hx y hy (hxy ▸ .refl)

/-- Every vertex is emitted once. -/
theorem emission_perm_range : g.emission.Perm (List.range g.size) :=
  (List.perm_ext_iff_of_nodup (nodup_emission hc) List.nodup_range).2 fun v => by
    rw [mem_emission_iff hc, List.mem_range]

end components

/-- A vertex leads only to those before it and those of its component, and nothing else stands
between two vertices of one component. -/
structure Ordered (g : Graph) : Prop where
  closed : g.Closed
  edge : ∀ u v, g.Edge u v → v ≤ u ∨ g.Linked u v
  between : ∀ u v w, u ≤ v → v ≤ w → g.Linked u w → g.Linked u v

namespace Ordered

variable (ho : g.Ordered)

include ho

theorem le_or_linked (h : g.Reaches u v) : v ≤ u ∨ g.Linked u v := by
  induction h with
  | refl => exact .inl (Nat.le_refl _)
  | @tail v w huv edge ih =>
    by_cases hwu : w ≤ u
    · exact .inl hwu
    right
    rcases ho.edge v w edge with hwv | hvw
    · -- `w` lies between `u` and `v`
      rcases ih with hvu | hlink
      · omega
      · exact ho.between u w v (by omega) hwv hlink
    · rcases ih with hvu | hlink
      · exact (ho.between v u w hvu (by omega) hvw).symm.trans hvw
      · exact hlink.trans hvw

/-- The search from all vertices in rising order never has to go on to a later component. -/
theorem pairwise_search {n : Nat} (hn : n ≤ g.size) :
    let s := (List.range n).foldl (g.explore g.size) {}
    (∀ v ∈ s.finished, ∃ u < n, u ≤ v ∧ g.Linked u v) ∧
      s.finished.Pairwise fun u v => g.Linked u v ∨ u < v := by
  induction n with
  | zero => simp
  | succ n ih =>
    obtain ⟨hroot, hpair⟩ := ih (by omega)
    have before := foldl_explore_extends ho.closed (.empty g)
      (fun v (hv : v ∈ List.range n) => by have := List.mem_range.1 hv; omega) not_pending_empty
    have hnone (p : Nat) : ¬Search.Pending ((List.range n).foldl (g.explore g.size) {}) p :=
      fun hp => not_pending_empty p ((before.pending p).1 hp)
    simp only [List.range_succ, List.foldl_append]
    generalize (List.range n).foldl (g.explore g.size) {} = s at *
    have step := foldl_explore_extends ho.closed before.sound
      (show ∀ v ∈ [n], v < g.size by simp; omega) hnone
    obtain ⟨new, hfinished, hfrom⟩ := step.finished
    -- what is new is linked to the root, since all before it was finished
    have hlink : ∀ v ∈ new, n ≤ v ∧ g.Linked n v := by
      intro v hv
      have hr : g.Reaches n v := by
        obtain ⟨u, hu, hr⟩ := hfrom v hv
        obtain rfl : u = n := by simpa using hu
        exact hr
      have hnv : n ≤ v := by
        by_contra hlt
        have hold : v ∈ s.finished := (mem_finished_iff before.sound hnone).2
          (before.roots_entered v (by simp; omega))
        have hnodup := hfinished ▸ step.sound.finished_nodup
        exact (List.nodup_append.1 hnodup).2.2 v hold v hv rfl
      rcases ho.le_or_linked hr with hle | hlink
      · obtain rfl : v = n := by omega
        exact ⟨hnv, .refl g v⟩
      · exact ⟨hnv, hlink⟩
    rw [hfinished]
    constructor
    · intro v hv
      rcases List.mem_append.1 hv with hv | hv
      · obtain ⟨u, hu, huv, hl⟩ := hroot v hv
        exact ⟨u, by omega, huv, hl⟩
      · exact ⟨n, by omega, hlink v hv⟩
    · refine List.pairwise_append.2 ⟨hpair, ?_, ?_⟩
      · refine List.Pairwise.imp_of_mem (R := fun _ _ => True) ?_ (List.pairwise_of_forall (by simp))
        intro x y hx hy _
        exact .inl ((hlink x hx).2.symm.trans (hlink y hy).2)
      · intro x hx y hy
        obtain ⟨u, hu, hux, hl⟩ := hroot x hx
        obtain ⟨hny, hly⟩ := hlink y hy
        by_cases hxy : x < y
        · exact .inr hxy
        · -- `n` lies between `u` and `x`
          have hun := ho.between u n x (by omega) (by omega) hl
          exact .inl (hl.symm.trans (hun.trans hly))

/-- An ordered graph is emitted in the order of its numbers. -/
theorem emission_eq_range : g.emission = List.range g.size := by
  have hpair : (g.leaders [] g.finishOrder).Pairwise fun u v => u < v ∧ ¬g.Linked u v := by
    have hlt := ((ho.pairwise_search (Nat.le_refl _)).2).sublist
      (leaders_sublist g [] g.finishOrder)
    apply (hlt.and (pairwise_leaders ho.closed (List.nil_append _).symm)).imp
    rintro u v ⟨hl | hl, hr⟩
    · exact absurd hl.1 hr
    · exact ⟨hl, fun h => hr h.1⟩
  have hsorted : g.emission.Pairwise (· < ·) := by
    rw [emission]
    apply List.pairwise_flatten.2
    constructor
    · intro c h
      exact List.pairwise_lt_range.sublist (component_sublist h)
    · apply List.pairwise_map.2
      apply hpair.imp_of_mem
      rintro u v hu hv ⟨huv, hnot⟩ a ha b hb
      have hua := (mem_partners_iff ho.closed (lt_of_mem_leaders ho.closed hu)).1 ha
      have hvb := (mem_partners_iff ho.closed (lt_of_mem_leaders ho.closed hv)).1 hb
      by_contra hba
      by_cases hbu : b ≤ u
      · have hbu' := ho.between b u v hbu (by omega) hvb.symm
        exact hnot (hbu'.symm.trans hvb.symm)
      · have hub := ho.between u b a (by omega) (by omega) hua
        exact hnot (hub.trans hvb.symm)
  exact (emission_perm_range ho.closed).eq_of_pairwise
    (fun _ _ _ _ h k => absurd h (Nat.lt_asymm k)) hsorted List.pairwise_lt_range

end Ordered

end Stubsmith.Graph
