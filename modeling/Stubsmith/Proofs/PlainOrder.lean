import Stubsmith.Proofs.EmissionOrder

namespace Stubsmith

namespace Graph

variable {g : Graph} {v : Nat} {l : List Nat}

section

variable (hc : g.Closed) (hacyclic : ∀ u v, g.Linked u v → u = v)

include hc hacyclic

/-- Without cycles every vertex is a component of its own. -/
theorem partners_eq_singleton (hv : v < g.size) : g.partners v = [v] := by
  have hmem (w : Nat) : w ∈ [v] ↔ g.Linked v w := by
    rw [List.mem_singleton]
    constructor
    · rintro rfl
      exact .refl g w
    · intro h
      exact (hacyclic v w h).symm
  rw [← mergeSort_eq_partners hc hv (List.nodup_singleton v) hmem, List.mergeSort_singleton]

theorem leaders_eq_self (hl : ∀ x ∈ l, x < g.size) (hnodup : l.Nodup) : g.leaders [] l = l := by
  induction l with
  | nil => rfl
  | cons v rest ih =>
    obtain ⟨hv, hrest⟩ := List.nodup_cons.1 hnodup
    have hnone : (rest ++ []).any (g.joined v) = false := by
      rw [List.append_nil, List.any_eq_false]
      intro x hx hjoined
      have hlink := (joined_iff hc (hl v (by simp)) (hl x (by simp [hx]))).1 hjoined
      exact hv (hacyclic v x hlink ▸ hx)
    rw [leaders, hnone, ih (fun x hx => hl x (by simp [hx])) hrest]
    rfl

/-- Without cycles the vertices are emitted as a search is done with them. -/
theorem emission_eq_finishOrder : g.emission = g.finishOrder := by
  have hlt : ∀ x ∈ g.finishOrder, x < g.size := by
    intro x hx
    exact (mem_finishOrder_iff hc).1 hx
  have hsingle : g.finishOrder.map g.partners = g.finishOrder.map fun v => [v] :=
    List.map_congr_left fun v hv => partners_eq_singleton hc hacyclic (hlt v hv)
  rw [emission, components, leaders_eq_self hc hacyclic hlt (nodup_finishOrder hc), hsingle,
    ← List.flatMap_def, List.flatMap_singleton']

end

end Graph

/-- What a plain search has done: the names that it has marked, and the groups of the class-likes
that it has written. -/
structure PlainOrder where
  marked : List String := []
  groups : List Group := []

/-- A class-like is written into the last group if that is one of its namespace, and else into a new
group behind the others. -/
inductive Joins (d : Descriptor) : List Group → List Group → Prop where
  | last {front : List Group} {g : Group} (same : g.space = d.space) :
      Joins d (front ++ [g]) (front ++ [{ g with body := g.body ++ [d.toDecl] }])
  | new {groups : List Group} (other : ∀ g, groups.getLast? = some g → g.space ≠ d.space) :
      Joins d groups (groups ++ [{ space := d.space, body := [d.toDecl] }])

theorem Placement.append_concat (front : List Group) (g : Group) (d : Descriptor) :
    append (front ++ [g]) d =
      front ++ if g.space = d.space then [{ g with body := g.body ++ [d.toDecl] }]
        else [g, { space := d.space, body := [d.toDecl] }] := by
  induction front with
  | nil => rfl
  | cons f front ih =>
    cases front with
    | nil => exact congrArg (f :: ·) ih
    | cons f' front => exact congrArg (f :: ·) ih

theorem joins_iff {d : Descriptor} {gs hs : List Group} :
    Joins d gs hs ↔ hs = Placement.append gs d := by
  constructor
  · intro h
    cases h with
    | last same => rw [Placement.append_concat, if_pos same]
    | new other =>
      cases gs using List.reverseRecOn with
      | nil => rfl
      | append_singleton front g =>
        rw [Placement.append_concat, if_neg (other g (by simp)), List.append_assoc]
        rfl
  · rintro rfl
    cases gs using List.reverseRecOn with
    | nil => exact .new (by simp)
    | append_singleton front g =>
      rw [Placement.append_concat]
      by_cases same : g.space = d.space
      · rw [if_pos same]
        exact .last same
      · have hnew : Joins d (front ++ [g]) _ := .new (by simpa using same)
        rw [List.append_assoc] at hnew
        rw [if_neg same]
        exact hnew

namespace Registry

/-- A plain search visits names one after the other. One that is not registered, or is marked, is
passed over. Any other is marked, what its class-like is declared with is visited in turn, and then
it is written. -/
inductive Visits (r : Registry) : List String → PlainOrder → PlainOrder → Prop where
  | nil (s : PlainOrder) : Visits r [] s s
  | unregistered {name : String} {names : List String} {s t : PlainOrder}
      (absent : r.get? name = none) (rest : Visits r names s t) : Visits r (name :: names) s t
  | again {name : String} {names : List String} {s t : PlainOrder} (marked : name ∈ s.marked)
      (rest : Visits r names s t) : Visits r (name :: names) s t
  | write {name : String} {names : List String} {d : Descriptor} {s t u : PlainOrder}
      {groups : List Group} (registered : r.get? name = some d) (unmarked : name ∉ s.marked)
      (before : Visits r d.dependencies { s with marked := name :: s.marked } t)
      (joins : Joins d t.groups groups) (rest : Visits r names { t with groups := groups } u) :
      Visits r (name :: names) s u

/-- No class-like depends on another one that depends on it. It may depend on itself. -/
def Acyclic (r : Registry) : Prop :=
  ∀ a b, r.Linked a b → a = b

variable {r : Registry} {d : Descriptor} {i : Nat} {names : List String} {s t u : PlainOrder}

theorem Visits.deterministic (h : r.Visits names s t) (k : r.Visits names s u) : t = u := by
  induction h generalizing u with
  | nil => cases k; rfl
  | unregistered absent _ ih =>
    cases k with
    | unregistered _ rest => exact ih rest
    | again _ rest => exact ih rest
    | write registered => rw [absent] at registered; cases registered
  | again marked _ ih =>
    cases k with
    | unregistered _ rest => exact ih rest
    | again _ rest => exact ih rest
    | write _ unmarked => exact absurd marked unmarked
  | write registered unmarked _ joins _ ih ih' =>
    cases k with
    | unregistered absent => rw [absent] at registered; cases registered
    | again marked => exact absurd marked unmarked
    | write registered' _ before joins' rest =>
      rw [registered] at registered'
      cases registered'
      obtain rfl := ih before
      rw [joins_iff] at joins joins'
      rw [joins'] at rest
      rw [joins] at ih'
      exact ih' rest

theorem Visits.cons {name : String} (h : r.Visits [name] s t) (k : r.Visits names t u) :
    r.Visits (name :: names) s u := by
  cases h with
  | unregistered absent rest =>
    cases rest
    exact .unregistered absent k
  | again marked rest =>
    cases rest
    exact .again marked k
  | write registered unmarked before joins rest =>
    cases rest
    exact .write registered unmarked before joins k

theorem acyclic_of_rank (hr : r.Consistent) (rank : Descriptor → Nat)
    (h : ∀ a b, r.Needs a b → a.fullName = b.fullName ∨ rank b < rank a) : r.Acyclic := by
  have reaches {a b : Descriptor} (hab : r.Reaches a b) : a = b ∨ rank b < rank a := by
    induction hab with
    | refl => exact .inl rfl
    | @tail b c _ need ih =>
      rcases h b c need with heq | hlt
      · obtain rfl := hr.eq_of_fullName need.1 need.2.1 heq
        exact ih
      · rcases ih with rfl | hlt'
        · exact .inr hlt
        · exact .inr (Nat.lt_trans hlt hlt')
  intro a b hlink
  rcases reaches hlink.1 with heq | hlt
  · exact heq
  · rcases reaches hlink.2 with heq | hlt'
    · exact heq.symm
    · exact absurd hlt' (Nat.lt_asymm hlt)

theorem slot?_fullName (hr : r.Consistent) (hd : r.descriptors[i]? = some d) :
    r.slot? d.fullName = some i :=
  (hr d.fullName i).2 ⟨d, hd, rfl⟩

theorem next_graph (hd : r.descriptors[i]? = some d) :
    r.graph.next i = d.dependencies.filterMap r.slot? := by
  simp [Graph.next, graph, List.getD_eq_getElem?_getD, hd, dependencySlots]

/-- What a search on the slots has done, told by names. -/
def plainOrder (r : Registry) (s : Search) : PlainOrder where
  marked := (r.atSlots s.entered).map Descriptor.fullName
  groups := Placement.groupsOf (r.atSlots s.finished)

theorem mem_marked_iff (hr : r.Consistent) (hd : r.descriptors[i]? = some d) {s : Search} :
    d.fullName ∈ (r.plainOrder s).marked ↔ i ∈ s.entered := by
  simp only [plainOrder, List.mem_map, mem_atSlots_iff]
  constructor
  · intro h
    obtain ⟨e, ⟨j, hj, he⟩, hname⟩ := h
    have hslot := slot?_fullName hr he
    rw [hname, slot?_fullName hr hd] at hslot
    cases hslot
    exact hj
  · intro h
    exact ⟨d, ⟨i, h, hd⟩, rfl⟩

theorem plainOrder_enter (hd : r.descriptors[i]? = some d) (s : Search) :
    r.plainOrder { s with entered := i :: s.entered } =
      { r.plainOrder s with marked := d.fullName :: (r.plainOrder s).marked } := by
  simp [plainOrder, atSlots, hd]

theorem plainOrder_finish (hd : r.descriptors[i]? = some d) (s : Search) :
    r.plainOrder { s with finished := s.finished ++ [i] } =
      { r.plainOrder s with groups := Placement.append (r.plainOrder s).groups d } := by
  simp [plainOrder, atSlots, hd, Placement.groupsOf]

section

variable (hr : r.Consistent)

include hr

open Search

/-- Where steps of a search on the slots are visits, so are steps from the slots of some names. -/
theorem visits_foldl {step : Search → Nat → Search} {n : Nat}
    (hstep : ∀ s i d, s.Sound r.graph → r.descriptors[i]? = some d →
      (∀ p, s.Pending p → r.graph.Reaches p i) → n ≤ s.entered.length →
      Extends r.graph [i] s (step s i) ∧
        r.Visits [d.fullName] (r.plainOrder s) (r.plainOrder (step s i)))
    {s : Search} (hs : s.Sound r.graph)
    (hreach : ∀ p, s.Pending p → ∀ i ∈ names.filterMap r.slot?, r.graph.Reaches p i)
    (hn : n ≤ s.entered.length) :
    r.Visits names (r.plainOrder s) (r.plainOrder ((names.filterMap r.slot?).foldl step s)) := by
  induction names generalizing s with
  | nil => exact .nil _
  | cons name names ih =>
    cases hslot : r.slot? name with
    | none =>
      have habsent : r.get? name = none := by rw [get?, hslot, Option.bind_none]
      rw [List.filterMap_cons_none hslot] at hreach ⊢
      exact .unregistered habsent (ih hs hreach hn)
    | some i =>
      obtain ⟨d, hd, rfl⟩ := (hr name i).1 hslot
      rw [List.filterMap_cons_some hslot] at hreach ⊢
      obtain ⟨hext, hvisit⟩ := hstep s i d hs hd (fun p hp => hreach p hp i (by simp)) hn
      refine hvisit.cons (ih hext.sound ?_ (Nat.le_trans hn hext.entered.length_le))
      intro p hp j hj
      exact hreach p ((hext.pending p).1 hp) j (by simp [hj])

/-- A search from a slot that is not cut off visits the name of what stands there. -/
theorem visits_explore {depth : Nat} {s : Search} (hs : s.Sound r.graph)
    (hd : r.descriptors[i]? = some d) (hpending : ∀ p, s.Pending p → r.graph.Reaches p i)
    (hdepth : r.graph.size ≤ s.entered.length + depth) :
    r.Visits [d.fullName] (r.plainOrder s) (r.plainOrder (r.graph.explore depth s i)) := by
  have hc := closed_graph hr
  induction depth generalizing s i d with
  | zero =>
    have hmem := Graph.mem_entered_of_size_le hs (by simpa using hdepth) (lt_size_graph hd)
    exact .again ((mem_marked_iff hr hd).2 hmem) (.nil _)
  | succ depth ih =>
    by_cases hmem : i ∈ s.entered
    · rw [Graph.explore_of_entered hmem]
      exact .again ((mem_marked_iff hr hd).2 hmem) (.nil _)
    have hget : r.get? d.fullName = some d :=
      hr.get?_eq_some_iff.2 ⟨List.mem_of_getElem? hd, rfl⟩
    have hreach := Graph.reaches_of_pending_enter hs hmem hpending
    have below : r.Visits d.dependencies (r.plainOrder { s with entered := i :: s.entered })
        (r.plainOrder ((r.graph.next i).foldl (r.graph.explore depth)
          { s with entered := i :: s.entered })) := by
      rw [next_graph hd]
      refine visits_foldl hr (n := s.entered.length + 1) ?_ (hs.enter (lt_size_graph hd) hmem) ?_
        (by simp)
      · intro t j e ht he hp hn
        exact ⟨Graph.explore_extends hc ht (lt_size_graph he) hp (by omega), ih ht he hp (by omega)⟩
      · intro p hp j hj
        rw [← next_graph hd] at hj
        exact (hreach p hp).tail hj
    rw [plainOrder_enter hd] at below
    have hunmarked : d.fullName ∉ (r.plainOrder s).marked := by
      rwa [mem_marked_iff hr hd]
    have hexplore : r.graph.explore (depth + 1) s i =
        let s' := (r.graph.next i).foldl (r.graph.explore depth)
          { s with entered := i :: s.entered }
        { s' with finished := s'.finished ++ [i] } := by
      simp [Graph.explore, hmem]
    rw [hexplore, plainOrder_finish hd]
    exact .write hget hunmarked below (joins_iff.2 rfl) (.nil _)

theorem slots_descriptors :
    (r.descriptors.map Descriptor.fullName).filterMap r.slot? =
      List.range r.descriptors.length := by
  apply filterMap_of_map
  apply List.ext_getElem
  · simp
  · intro i hi _
    rw [List.length_map, List.length_map] at hi
    simpa using slot?_fullName hr (List.getElem?_eq_getElem hi)

/-- A plain search from all names writes what a search on the slots is done with, in its order. -/
theorem visits_descriptors :
    ∃ s, r.Visits (r.descriptors.map Descriptor.fullName) {} s ∧
      s.groups = Placement.groupsOf (r.atSlots r.graph.finishOrder) := by
  refine ⟨r.plainOrder ((List.range r.graph.size).foldl (r.graph.explore r.graph.size) {}), ?_, rfl⟩
  rw [size_graph, ← slots_descriptors hr]
  refine visits_foldl hr (n := 0) ?_ (.empty _) ?_ (Nat.zero_le _)
  · intro s i d hs hd hp _
    have hdepth : r.graph.size ≤ s.entered.length + r.descriptors.length := by
      rw [size_graph]
      omega
    exact ⟨Graph.explore_extends (closed_graph hr) hs (lt_size_graph hd) hp hdepth,
      visits_explore hr hs hd hp hdepth⟩
  · intro p hp
    exact absurd hp (Graph.not_pending_empty p)

theorem eq_of_linked_graph (hacyclic : r.Acyclic) {i j : Nat} (h : r.graph.Linked i j) : i = j := by
  have start {i j : Nat} (hij : r.graph.Reaches i j) (hne : i ≠ j) :
      ∃ a, r.descriptors[i]? = some a := by
    obtain ⟨k, hedge, -⟩ := (Relation.ReflTransGen.cases_head hij).resolve_left hne
    obtain ⟨a, -, ha, -⟩ := (edge_graph_iff hr).1 hedge
    exact ⟨a, ha⟩
  by_contra hne
  obtain ⟨a, ha⟩ := start h.1 hne
  obtain ⟨b, hb⟩ := start h.2 (Ne.symm hne)
  obtain rfl := hacyclic a b ((linked_graph_iff hr ha hb).1 h)
  have hslot := slot?_fullName hr ha
  rw [slot?_fullName hr hb] at hslot
  exact hne (Option.some.inj hslot).symm

theorem groups_eq_of_acyclic (hacyclic : r.Acyclic) :
    r.groups = Placement.groupsOf (r.atSlots r.graph.finishOrder) := by
  rw [groups_eq hr, ordered, Graph.emission_eq_finishOrder (closed_graph hr)]
  intro i j h
  exact eq_of_linked_graph hr hacyclic h

end

/-- Class-likes of which the first is declared with all others, and the second, of another
namespace, with itself and a class that is declared with the last. -/
def selfUser : List Descriptor :=
  [⟨⟨{ kind := .classType, name := some "E" }, []⟩, "N", "\\N\\E",
      ["\\C", "\\N\\B", "\\N\\A", "\\D"]⟩,
    ⟨⟨{ kind := .classType, name := some "C" }, []⟩, "", "\\C", ["\\N\\B", "\\C", "\\D"]⟩,
    ⟨⟨{ kind := .classType, name := some "B" }, []⟩, "N", "\\N\\B", ["\\N\\A"]⟩,
    ⟨⟨{ kind := .classType, name := some "A" }, []⟩, "N", "\\N\\A", []⟩]

end Registry

end Stubsmith
