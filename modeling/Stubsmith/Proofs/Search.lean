import Mathlib.Data.List.Perm.Subperm
import Mathlib.Logic.Relation
import Stubsmith.Hierarchy.Graph

namespace Stubsmith

/-- The vertices that a search has entered, the last one first, and those that it is done with. -/
structure Search where
  entered : List Nat := []
  finished : List Nat := []

namespace Graph

/-- Searches on from a vertex, to a bounded depth. -/
def explore (g : Graph) : Nat → Search → Nat → Search
  | 0, s, _ => s
  | depth + 1, s, v =>
    if s.entered.contains v then s
    else
      let s' := (g.next v).foldl (explore g depth) { s with entered := v :: s.entered }
      { s' with finished := s'.finished ++ [v] }

/-- All vertices in the order in which a search from each in turn is done with them. -/
def finishOrder (g : Graph) : List Nat :=
  ((List.range g.size).foldl (g.explore g.size) {}).finished

/-- The vertices that a vertex reaches, itself among them. -/
def reachable (g : Graph) (v : Nat) : List Nat :=
  (g.explore g.size {} v).finished

def Edge (g : Graph) (u v : Nat) : Prop :=
  v ∈ g.next u

/-- One vertex leads to another over successors, or is the other. -/
def Reaches (g : Graph) : Nat → Nat → Prop :=
  Relation.ReflTransGen g.Edge

/-- Two vertices of one component. -/
def Linked (g : Graph) (u v : Nat) : Prop :=
  g.Reaches u v ∧ g.Reaches v u

/-- Successors are vertices. -/
def Closed (g : Graph) : Prop :=
  ∀ u v, g.Edge u v → v < g.size

variable {g : Graph} {u v w : Nat}

theorem Linked.refl (g : Graph) (v : Nat) : g.Linked v v :=
  ⟨.refl, .refl⟩

theorem Linked.symm (h : g.Linked u v) : g.Linked v u :=
  ⟨h.2, h.1⟩

theorem Linked.trans (h : g.Linked u v) (k : g.Linked v w) : g.Linked u w :=
  ⟨h.1.trans k.1, k.2.trans h.2⟩

theorem Closed.reaches_lt (hc : g.Closed) (h : g.Reaches u v) (hu : u < g.size) : v < g.size := by
  induction h with
  | refl => exact hu
  | tail _ edge _ => exact hc _ _ edge

end Graph

namespace Search

/-- What a search has entered and is not done with: the vertices around the one at hand. -/
def Pending (s : Search) (v : Nat) : Prop :=
  v ∈ s.entered ∧ v ∉ s.finished

/-- What a search keeps true while it runs. -/
structure Sound (g : Graph) (s : Search) : Prop where
  entered_lt : ∀ v ∈ s.entered, v < g.size
  entered_nodup : s.entered.Nodup
  finished_nodup : s.finished.Nodup
  finished_entered : ∀ v ∈ s.finished, v ∈ s.entered
  closed : ∀ v ∈ s.finished, ∀ w, g.Edge v w → w ∈ s.entered
  /-- What a finished vertex reaches was finished no later, unless the vertex belongs to the
  component of one that is later or still pending. -/
  settled : ∀ l₁ l₂, s.finished = l₁ ++ l₂ → ∀ v ∈ l₁, ∀ w, g.Reaches v w →
    w ∈ l₁ ∨ ∃ y, (y ∈ l₂ ∨ s.Pending y) ∧ g.Linked v y

/-- What some more search from `roots` adds to a search. -/
structure Extends (g : Graph) (roots : List Nat) (s s' : Search) : Prop where
  sound : s'.Sound g
  entered : s.entered <:+ s'.entered
  pending : ∀ v, s'.Pending v ↔ s.Pending v
  roots_entered : ∀ v ∈ roots, v ∈ s'.entered
  finished : ∃ new, s'.finished = s.finished ++ new ∧ ∀ v ∈ new, ∃ u ∈ roots, g.Reaches u v

variable {g : Graph} {s s' s'' : Search} {v : Nat}

theorem Sound.empty (g : Graph) : Sound g {} where
  entered_lt := by simp
  entered_nodup := by simp
  finished_nodup := by simp
  finished_entered := by simp
  closed := by simp
  settled := by simp

theorem Extends.refl (hs : s.Sound g) : Extends g [] s s :=
  ⟨hs, List.suffix_rfl, fun _ => Iff.rfl, by simp, [], by simp⟩

theorem Extends.cons {roots : List Nat} (h : Extends g [v] s s') (k : Extends g roots s' s'') :
    Extends g (v :: roots) s s'' := by
  obtain ⟨new, hnew, hreach⟩ := h.finished
  obtain ⟨new', hnew', hreach'⟩ := k.finished
  refine ⟨k.sound, h.entered.trans k.entered, fun w => (k.pending w).trans (h.pending w), ?_,
    new ++ new', by rw [hnew', hnew, List.append_assoc], ?_⟩
  · intro w hw
    rcases List.mem_cons.1 hw with rfl | hw
    · exact k.entered.subset (h.roots_entered w (by simp))
    · exact k.roots_entered w hw
  · intro w hw
    rcases List.mem_append.1 hw with hw | hw
    · obtain ⟨u, hu, hr⟩ := hreach w hw
      obtain rfl : u = v := by simpa using hu
      exact ⟨u, by simp, hr⟩
    · obtain ⟨u, hu, hr⟩ := hreach' w hw
      exact ⟨u, by simp [hu], hr⟩

theorem Extends.of_entered (hs : s.Sound g) (hv : v ∈ s.entered) : Extends g [v] s s :=
  ⟨hs, List.suffix_rfl, fun _ => Iff.rfl, by simpa using hv, [], by simp⟩

/-- What is true of a step is true of steps from one root after the other. -/
theorem foldl_extends {step : Search → Nat → Search} {n : Nat} {roots : List Nat}
    (hstep : ∀ s v, s.Sound g → v < g.size → (∀ p, s.Pending p → g.Reaches p v) →
      n ≤ s.entered.length → Extends g [v] s (step s v))
    (hs : s.Sound g) (hroots : ∀ v ∈ roots, v < g.size)
    (hreach : ∀ p, s.Pending p → ∀ v ∈ roots, g.Reaches p v) (hn : n ≤ s.entered.length) :
    Extends g roots s (roots.foldl step s) := by
  induction roots generalizing s with
  | nil => exact .refl hs
  | cons v roots ih =>
    have first : Extends g [v] s (step s v) :=
      hstep s v hs (hroots v (by simp)) (fun p hp => hreach p hp v (by simp)) hn
    refine first.cons (ih first.sound (fun w hw => hroots w (by simp [hw])) ?_ ?_)
    · intro p hp w hw
      exact hreach p ((first.pending p).1 hp) w (by simp [hw])
    · exact Nat.le_trans hn first.entered.length_le

/-- Steps that agree wherever a search can be agree one after the other. -/
theorem foldl_eq {step step' : Search → Nat → Search} {n : Nat} {roots : List Nat}
    (hstep : ∀ s v, s.Sound g → v < g.size → (∀ p, s.Pending p → g.Reaches p v) →
      n ≤ s.entered.length → Extends g [v] s (step s v) ∧ step s v = step' s v)
    (hs : s.Sound g) (hroots : ∀ v ∈ roots, v < g.size)
    (hreach : ∀ p, s.Pending p → ∀ v ∈ roots, g.Reaches p v) (hn : n ≤ s.entered.length) :
    roots.foldl step s = roots.foldl step' s := by
  induction roots generalizing s with
  | nil => rfl
  | cons v roots ih =>
    obtain ⟨first, heq⟩ :=
      hstep s v hs (hroots v (by simp)) (fun p hp => hreach p hp v (by simp)) hn
    rw [List.foldl_cons, List.foldl_cons, ← heq]
    refine ih first.sound (fun w hw => hroots w (by simp [hw])) ?_ ?_
    · intro p hp w hw
      exact hreach p ((first.pending p).1 hp) w (by simp [hw])
    · exact Nat.le_trans hn first.entered.length_le

theorem Sound.enter (hs : s.Sound g) (hv : v < g.size) (hnew : v ∉ s.entered) :
    Sound g { s with entered := v :: s.entered } where
  entered_lt w hw := by
    rcases List.mem_cons.1 hw with rfl | hw
    · exact hv
    · exact hs.entered_lt w hw
  entered_nodup := List.nodup_cons.2 ⟨hnew, hs.entered_nodup⟩
  finished_nodup := hs.finished_nodup
  finished_entered w hw := List.mem_cons_of_mem _ (hs.finished_entered w hw)
  closed w hw x hx := List.mem_cons_of_mem _ (hs.closed w hw x hx)
  settled l₁ l₂ hl w hw x hx := by
    rcases hs.settled l₁ l₂ hl w hw x hx with h | ⟨y, hy | hy, hlink⟩
    · exact .inl h
    · exact .inr ⟨y, .inl hy, hlink⟩
    · exact .inr ⟨y, .inr ⟨List.mem_cons_of_mem _ hy.1, hy.2⟩, hlink⟩

/-- The vertices that a vertex reaches, when its successors have all been entered and the pending
vertices all reach it. -/
theorem Sound.reached_finished (hs : s.Sound g) (hnext : ∀ w, g.Edge v w → w ∈ s.entered)
    (hpending : ∀ p, s.Pending p → g.Reaches p v) {w : Nat} (h : g.Reaches v w) :
    w ∈ s.finished ++ [v] ∨ ∃ p, (s.Pending p ∧ p ≠ v) ∧ g.Linked v p := by
  induction h with
  | refl => simp
  | @tail z w hz edge ih =>
    rcases ih with hzf | hp
    · have hw : w ∈ s.entered := by
        rcases List.mem_append.1 hzf with hzf | hzf
        · exact hs.closed z hzf w edge
        · obtain rfl : z = v := by simpa using hzf
          exact hnext w edge
      by_cases hwv : w = v
      · simp [hwv]
      by_cases hwf : w ∈ s.finished
      · simp [hwf]
      -- a pending vertex reaches the one at hand, which reaches it back
      · have hp : s.Pending w := ⟨hw, hwf⟩
        exact .inr ⟨w, ⟨hp, hwv⟩, hz.tail edge, hpending w hp⟩
    · exact .inr hp

/-- Finishing a pending vertex whose successors have all been entered and which the pending vertices
all reach. -/
theorem Sound.finish (hs : s.Sound g) (hv : s.Pending v)
    (hnext : ∀ w, g.Edge v w → w ∈ s.entered) (hpending : ∀ p, s.Pending p → g.Reaches p v) :
    Sound g { s with finished := s.finished ++ [v] } where
  entered_lt := hs.entered_lt
  entered_nodup := hs.entered_nodup
  finished_nodup := by
    have hd : ∀ w ∈ s.finished, w ≠ v := by
      intro w hw h
      exact hv.2 (h ▸ hw)
    simpa [List.nodup_append, hs.finished_nodup] using hd
  finished_entered w hw := by
    rcases List.mem_append.1 hw with hw | hw
    · exact hs.finished_entered w hw
    · obtain rfl : w = v := by simpa using hw
      exact hv.1
  closed w hw x hx := by
    rcases List.mem_append.1 hw with hw | hw
    · exact hs.closed w hw x hx
    · obtain rfl : w = v := by simpa using hw
      exact hnext x hx
  settled := by
    have still {p : Nat} (hp : s.Pending p) (hpv : p ≠ v) :
        Pending { s with finished := s.finished ++ [v] } p := by
      refine ⟨hp.1, ?_⟩
      simpa [hpv] using hp.2
    intro l₁ l₂ hl w hw x hx
    rcases List.eq_nil_or_concat l₂ with rfl | ⟨l₂, z, rfl⟩
    · have hl : s.finished ++ [v] = l₁ := by simpa using hl
      subst hl
      -- `w` is in the component of `v`, or has settled before
      have case_v (hlink : g.Linked w v) : x ∈ s.finished ++ [v] ∨
          ∃ y, (y ∈ [] ∨ Pending { s with finished := s.finished ++ [v] } y) ∧ g.Linked w y := by
        rcases hs.reached_finished hnext hpending (hlink.2.trans hx) with h | ⟨p, hp, hvp⟩
        · exact .inl h
        · exact .inr ⟨p, .inr (still hp.1 hp.2), hlink.trans hvp⟩
      rcases List.mem_append.1 hw with hwf | hwv
      · rcases hs.settled s.finished [] (by simp) w hwf x hx with h | ⟨y, hy | hy, hlink⟩
        · exact .inl (by simp [h])
        · simp at hy
        · by_cases hyv : y = v
          · exact case_v (hyv ▸ hlink)
          · exact .inr ⟨y, .inr (still hy hyv), hlink⟩
      · obtain rfl : w = v := by simpa using hwv
        exact case_v (.refl g w)
    · have hl : s.finished ++ [v] = (l₁ ++ l₂) ++ [z] := by simpa using hl
      obtain ⟨hl', hz⟩ := List.append_inj' hl rfl
      obtain rfl : v = z := by simpa using hz
      rcases hs.settled l₁ l₂ hl' w hw x hx with h | ⟨y, hy | hy, hlink⟩
      · exact .inl h
      · exact .inr ⟨y, .inl (by simp [hy]), hlink⟩
      · by_cases hyv : y = v
        · exact .inr ⟨y, .inl (by simp [hyv]), hlink⟩
        · exact .inr ⟨y, .inr (still hy hyv), hlink⟩

end Search

namespace Graph

open Search

variable {g : Graph} {s : Search} {v w : Nat}

theorem explore_of_entered {depth : Nat} (h : v ∈ s.entered) : g.explore depth s v = s := by
  cases depth <;> simp [explore, h]

/-- A search that has entered as many vertices as there are has entered all. -/
theorem mem_entered_of_size_le (hs : s.Sound g) (h : g.size ≤ s.entered.length) (hv : v < g.size) :
    v ∈ s.entered := by
  have hsub : s.entered ⊆ List.range g.size := by
    intro w hw
    exact List.mem_range.2 (hs.entered_lt w hw)
  have hperm : s.entered.Perm (List.range g.size) :=
    (List.subperm_of_subset hs.entered_nodup hsub).perm_of_length_le (by simpa using h)
  exact hperm.mem_iff.2 (List.mem_range.2 hv)

theorem pending_enter_iff (hs : s.Sound g) (hnew : v ∉ s.entered) :
    Pending { s with entered := v :: s.entered } w ↔ w = v ∨ s.Pending w := by
  have hvf : v ∉ s.finished := by
    intro hf
    exact hnew (hs.finished_entered v hf)
  simp only [Pending, List.mem_cons]
  constructor
  · intro h
    rcases h with ⟨rfl | hw, hf⟩
    · exact .inl rfl
    · exact .inr ⟨hw, hf⟩
  · intro h
    rcases h with rfl | ⟨hw, hf⟩
    · exact ⟨.inl rfl, hvf⟩
    · exact ⟨.inr hw, hf⟩

/-- The pending vertices all reach the one that is entered. -/
theorem reaches_of_pending_enter (hs : s.Sound g) (hnew : v ∉ s.entered)
    (hpending : ∀ p, s.Pending p → g.Reaches p v) :
    ∀ p, Pending { s with entered := v :: s.entered } p → g.Reaches p v := by
  intro p hp
  rcases (pending_enter_iff hs hnew).1 hp with rfl | hp
  · exact .refl
  · exact hpending p hp

/-- Searching on from the successors of a vertex that was just entered. -/
theorem extends_next {step : Search → Nat → Search} (hc : g.Closed) (hs : s.Sound g)
    (hv : v < g.size) (hnew : v ∉ s.entered) (hpending : ∀ p, s.Pending p → g.Reaches p v)
    (hstep : ∀ t w, t.Sound g → w < g.size → (∀ p, t.Pending p → g.Reaches p w) →
      s.entered.length < t.entered.length → Extends g [w] t (step t w)) :
    Extends g (g.next v) { s with entered := v :: s.entered }
      ((g.next v).foldl step { s with entered := v :: s.entered }) := by
  have hreach := reaches_of_pending_enter hs hnew hpending
  refine foldl_extends (n := s.entered.length + 1) ?_ (hs.enter hv hnew) (hc v) ?_ (by simp)
  · intro t w ht hw hp hn
    exact hstep t w ht hw hp hn
  · intro p hp w hw
    exact (hreach p hp).tail hw

/-- A search whose depth is bounded by the number of vertices not entered is complete. -/
theorem explore_extends (hc : g.Closed) {depth : Nat} (hs : s.Sound g) (hv : v < g.size)
    (hpending : ∀ p, s.Pending p → g.Reaches p v) (hd : g.size ≤ s.entered.length + depth) :
    Extends g [v] s (g.explore depth s v) := by
  induction depth generalizing s v with
  | zero => exact .of_entered hs (mem_entered_of_size_le hs (by simpa using hd) hv)
  | succ depth ih =>
    rw [explore]
    split
    · next h => exact .of_entered hs (by simpa using h)
    next h =>
    have hnew : v ∉ s.entered := by simpa using h
    let inside : Search := { s with entered := v :: s.entered }
    have hpending' (p : Nat) : inside.Pending p ↔ p = v ∨ s.Pending p :=
      pending_enter_iff hs hnew
    have hreach : ∀ p, inside.Pending p → g.Reaches p v :=
      reaches_of_pending_enter hs hnew hpending
    have below : Extends g (g.next v) inside ((g.next v).foldl (g.explore depth) inside) :=
      extends_next hc hs hv hnew hpending fun t w ht hw hp hn => ih ht hw hp (by omega)
    obtain ⟨new, hfinished, hfrom⟩ := below.finished
    have hvp : Pending ((g.next v).foldl (g.explore depth) inside) v :=
      (below.pending v).2 ((hpending' v).2 (.inl rfl))
    have hdone := below.sound.finish hvp (fun w hw => below.roots_entered w hw)
      (fun p hp => hreach p ((below.pending p).1 hp))
    refine ⟨hdone, ?_, ?_, ?_, new ++ [v], ?_, ?_⟩
    · exact (List.suffix_cons v s.entered).trans below.entered
    · intro p
      have hp := (below.pending p).trans (hpending' p)
      have hvs : ¬s.Pending v := by
        intro hp
        exact hnew hp.1
      simp only [Pending, List.mem_append, List.mem_singleton, not_or] at hp hvs ⊢
      constructor
      · intro h
        obtain ⟨he, hf, hpv⟩ := h
        exact (hp.1 ⟨he, hf⟩).resolve_left hpv
      · intro h
        obtain ⟨he, hf⟩ := hp.2 (.inr h)
        exact ⟨he, hf, fun hpv => hvs (hpv ▸ h)⟩
    · simpa using hvp.1
    · simp [hfinished, inside]
    · intro w hw
      refine ⟨v, by simp, ?_⟩
      rcases List.mem_append.1 hw with hw | hw
      · obtain ⟨u, hu, hr⟩ := hfrom w hw
        exact .head hu hr
      · obtain rfl : w = v := by simpa using hw
        exact .refl

/-- A depth that is enough gives what any other gives that is enough. -/
theorem explore_eq (hc : g.Closed) {depth depth' : Nat} (hs : s.Sound g) (hv : v < g.size)
    (hpending : ∀ p, s.Pending p → g.Reaches p v) (hd : g.size ≤ s.entered.length + depth)
    (hd' : g.size ≤ s.entered.length + depth') :
    g.explore depth s v = g.explore depth' s v := by
  induction depth generalizing s v depth' with
  | zero =>
    have hmem := mem_entered_of_size_le hs (by simpa using hd) hv
    rw [explore_of_entered hmem, explore_of_entered hmem]
  | succ depth ih =>
    by_cases hmem : v ∈ s.entered
    · rw [explore_of_entered hmem, explore_of_entered hmem]
    cases depth' with
    | zero => exact absurd (mem_entered_of_size_le hs (by simpa using hd') hv) hmem
    | succ depth' =>
      have below : (g.next v).foldl (g.explore depth) { s with entered := v :: s.entered } =
          (g.next v).foldl (g.explore depth') { s with entered := v :: s.entered } := by
        refine foldl_eq (n := g.size - min depth depth') ?_ (hs.enter hv hmem) (hc v) ?_ ?_
        · intro t w ht hw hp hn
          exact ⟨explore_extends hc ht hw hp (by omega), ih ht hw hp (by omega) (by omega)⟩
        · intro p hp w hw
          exact (reaches_of_pending_enter hs hmem hpending p hp).tail hw
        · simp only [List.length_cons]
          omega
      simp only [explore, List.contains_eq_mem, hmem, decide_false, Bool.false_eq_true, if_false,
        below]

theorem foldl_explore_extends (hc : g.Closed) {roots : List Nat} (hs : s.Sound g)
    (hroots : ∀ v ∈ roots, v < g.size) (hpending : ∀ p, ¬s.Pending p) :
    Extends g roots s (roots.foldl (g.explore g.size) s) :=
  foldl_extends (n := 0) (fun _ _ ht hw hp _ => explore_extends hc ht hw hp (by omega)) hs hroots
    (fun p hp => absurd hp (hpending p)) (Nat.zero_le _)

/-- A bound on the depth that is no less than the number of vertices has no effect. -/
theorem foldl_explore_eq (hc : g.Closed) {depth : Nat} {roots : List Nat} (hd : g.size ≤ depth)
    (hroots : ∀ v ∈ roots, v < g.size) :
    roots.foldl (g.explore depth) {} = roots.foldl (g.explore g.size) {} := by
  refine foldl_eq (n := 0) ?_ (.empty g) hroots ?_ (Nat.zero_le _)
  · intro s v hs hv hp _
    exact ⟨explore_extends hc hs hv hp (by omega), explore_eq hc hs hv hp (by omega) (by omega)⟩
  · simp [Pending]

theorem not_pending_empty (v : Nat) : ¬Pending {} v := by
  simp [Pending]

theorem mem_finished_iff (hs : s.Sound g) (hpending : ∀ p, ¬s.Pending p) :
    v ∈ s.finished ↔ v ∈ s.entered :=
  ⟨hs.finished_entered v, fun he => by_contra fun hf => hpending v ⟨he, hf⟩⟩

/-- The vertices found from one are those that it reaches. -/
theorem mem_reachable_iff (hc : g.Closed) (hv : v < g.size) :
    w ∈ g.reachable v ↔ g.Reaches v w := by
  have run : Extends g [v] {} (g.explore g.size {} v) :=
    explore_extends hc (.empty g) hv (fun p hp => absurd hp (not_pending_empty p)) (by simp)
  have hnone (p : Nat) : ¬Pending (g.explore g.size {} v) p :=
    fun hp => not_pending_empty p ((run.pending p).1 hp)
  constructor
  · intro hw
    obtain ⟨new, hfinished, hfrom⟩ := run.finished
    rw [reachable, hfinished] at hw
    obtain ⟨u, hu, hr⟩ := hfrom w (by simpa using hw)
    obtain rfl : u = v := by simpa using hu
    exact hr
  · intro h
    induction h with
    | refl => exact (mem_finished_iff run.sound hnone).2 (run.roots_entered v (by simp))
    | tail _ edge ih =>
      exact (mem_finished_iff run.sound hnone).2 (run.sound.closed _ ih _ edge)

section finishOrder

variable (hc : g.Closed)

include hc

theorem search_extends :
    Extends g (List.range g.size) {} ((List.range g.size).foldl (g.explore g.size) {}) :=
  foldl_explore_extends hc (.empty g) (fun _ hv => List.mem_range.1 hv) not_pending_empty

theorem search_not_pending (p : Nat) :
    ¬Pending ((List.range g.size).foldl (g.explore g.size) {}) p :=
  fun hp => not_pending_empty p (((search_extends hc).pending p).1 hp)

theorem nodup_finishOrder : g.finishOrder.Nodup :=
  (search_extends hc).sound.finished_nodup

theorem mem_finishOrder_iff : v ∈ g.finishOrder ↔ v < g.size := by
  have run := search_extends hc
  rw [finishOrder, mem_finished_iff run.sound (search_not_pending hc)]
  exact ⟨run.sound.entered_lt v, fun hv => run.roots_entered v (List.mem_range.2 hv)⟩

/-- A vertex that reaches one that stands behind a place of the order has one of its own component
behind that place. -/
theorem linked_of_reaches {l₁ l₂ : List Nat} (h : g.finishOrder = l₁ ++ l₂) (hv : v ∈ l₁)
    (hw : w ∈ l₂) (hr : g.Reaches v w) : ∃ y ∈ l₂, g.Linked v y := by
  rcases (search_extends hc).sound.settled l₁ l₂ h v hv w hr with hw' | ⟨y, hy | hy, hlink⟩
  · have hn := h ▸ nodup_finishOrder hc
    exact absurd rfl ((List.nodup_append.1 hn).2.2 w hw' w hw)
  · exact ⟨y, hy, hlink⟩
  · exact absurd hy (search_not_pending hc y)

end finishOrder

end Graph

end Stubsmith
