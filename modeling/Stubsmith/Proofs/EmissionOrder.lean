import Stubsmith.Proofs.Closing
import Stubsmith.Proofs.Placed
import Stubsmith.Proofs.Registered

namespace Stubsmith.Registry

/-- A registered class-like is declared with another. -/
def Needs (r : Registry) (a b : Descriptor) : Prop :=
  a ∈ r.descriptors ∧ b ∈ r.descriptors ∧ b.fullName ∈ a.dependencies

/-- A class-like comes by its dependencies to another, or is the other. -/
def Reaches (r : Registry) : Descriptor → Descriptor → Prop :=
  Relation.ReflTransGen r.Needs

/-- Class-likes that depend on one another. -/
def Linked (r : Registry) (a b : Descriptor) : Prop :=
  r.Reaches a b ∧ r.Reaches b a

variable {r : Registry} {a b : Descriptor} {i j : Nat}

@[simp]
theorem size_graph (r : Registry) : r.graph.size = r.descriptors.length := by
  simp [graph, Graph.size]

theorem edge_graph_iff (hr : r.Consistent) :
    r.graph.Edge i j ↔ ∃ a b, r.descriptors[i]? = some a ∧ r.descriptors[j]? = some b ∧
      b.fullName ∈ a.dependencies := by
  simp only [Graph.Edge, Graph.next, graph, List.getD_eq_getElem?_getD, List.getElem?_map]
  cases ha : r.descriptors[i]? with
  | none => simp
  | some a =>
    simp only [Option.map_some, Option.getD_some, dependencySlots, List.mem_filterMap,
      Option.some.injEq, exists_and_left, exists_eq_left']
    constructor
    · intro h
      obtain ⟨name, hname, hslot⟩ := h
      obtain ⟨b, hb, rfl⟩ := (hr name j).1 hslot
      exact ⟨b, hb, hname⟩
    · intro h
      obtain ⟨b, hb, hname⟩ := h
      exact ⟨b.fullName, hname, (hr _ _).2 ⟨b, hb, rfl⟩⟩

theorem lt_size_graph (ha : r.descriptors[i]? = some a) : i < r.graph.size := by
  rw [size_graph]
  exact (List.getElem?_eq_some_iff.1 ha).1

theorem closed_graph (hr : r.Consistent) : r.graph.Closed := by
  intro i j h
  obtain ⟨-, b, -, hb, -⟩ := (edge_graph_iff hr).1 h
  exact lt_size_graph hb

theorem reaches_graph_iff (hr : r.Consistent) (ha : r.descriptors[i]? = some a)
    (hb : r.descriptors[j]? = some b) : r.graph.Reaches i j ↔ r.Reaches a b := by
  constructor
  · intro h
    induction h generalizing b with
    | refl =>
      obtain rfl : a = b := by simpa [ha] using hb
      exact .refl
    | tail _ edge ih =>
      obtain ⟨c, b', hc, hb', hname⟩ := (edge_graph_iff hr).1 edge
      obtain rfl : b' = b := by simpa [hb'] using hb
      exact (ih hc).tail ⟨List.mem_of_getElem? hc, List.mem_of_getElem? hb, hname⟩
  · intro h
    induction h generalizing j with
    | refl =>
      have hi := (hr _ i).2 ⟨a, ha, rfl⟩
      have hj := (hr _ j).2 ⟨a, hb, rfl⟩
      obtain rfl : i = j := by simpa [hi] using hj
      exact .refl
    | tail _ need ih =>
      obtain ⟨k, hk⟩ := List.getElem?_of_mem need.1
      exact (ih hk).tail ((edge_graph_iff hr).2 ⟨_, _, hk, hb, need.2.2⟩)

theorem linked_graph_iff (hr : r.Consistent) (ha : r.descriptors[i]? = some a)
    (hb : r.descriptors[j]? = some b) : r.graph.Linked i j ↔ r.Linked a b := by
  rw [Graph.Linked, Linked, reaches_graph_iff hr ha hb, reaches_graph_iff hr hb ha]

theorem mem_of_reaches (ha : a ∈ r.descriptors) (h : r.Reaches a b) : b ∈ r.descriptors := by
  induction h with
  | refl => exact ha
  | tail _ need _ => exact need.2.1

def atSlots (r : Registry) (slots : List Nat) : List Descriptor :=
  slots.filterMap (r.descriptors[·]?)

theorem mem_atSlots_iff {slots : List Nat} :
    a ∈ r.atSlots slots ↔ ∃ i ∈ slots, r.descriptors[i]? = some a := by
  simp [atSlots]

theorem filterMap_of_map {α β : Type} {f : α → Option β} {l : List α} {m : List β}
    (h : l.map f = m.map some) : l.filterMap f = m := by
  calc
    l.filterMap f = (l.map f).filterMap id := (List.filterMap_map (f := f) (g := id)).symm
    _ = m := by
      rw [h, List.filterMap_map]
      exact List.filterMap_some

theorem atSlots_range (r : Registry) :
    r.atSlots (List.range r.descriptors.length) = r.descriptors := by
  apply filterMap_of_map
  apply List.ext_getElem <;> simp

/-- The descriptors in the order of writing. -/
def ordered (r : Registry) : List Descriptor :=
  r.atSlots r.graph.emission

/-- A resolver that may go deep enough writes the descriptors in order. -/
theorem groupsWithin_eq (hr : r.Consistent) {depth : Nat} (hd : r.size ≤ depth) :
    r.groupsWithin depth = Placement.groupsOf r.ordered := by
  have hsize : r.graph.size = r.size := size_graph r
  have hlength : (r.descriptors.map some).length = r.graph.size := by simp
  have hplacement := Resolver.placement_foldl_visit (closed_graph hr) (hsize ▸ hd) hlength
  have hslots (i : Nat) : (r.descriptors.map some).getD i none = r.descriptors[i]? := by
    rw [List.getD_eq_getElem?_getD, List.getElem?_map]
    cases r.descriptors[i]? <;> rfl
  rw [hsize] at hplacement
  rw [groupsWithin, hplacement, Placement.groups_foldl_emit (Graph.nodup_emission (closed_graph hr))]
  simp only [hslots]
  rfl

theorem groups_eq (hr : r.Consistent) : r.groups = Placement.groupsOf r.ordered :=
  groupsWithin_eq hr (Nat.le_refl _)

theorem flatMap_contents_groups (hr : r.Consistent) :
    r.groups.flatMap Group.contents = r.ordered.map fun d => (d.space, d.toDecl) := by
  rw [groups_eq hr, Placement.flatMap_groupsOf]

theorem flatMap_body_groups (hr : r.Consistent) :
    r.groups.flatMap Group.body = r.ordered.map Descriptor.toDecl := by
  have h := congrArg (List.map Prod.snd) (flatMap_contents_groups hr)
  simpa [List.map_flatMap, Group.contents, Function.comp_def] using h

theorem ordered_perm (hr : r.Consistent) : r.ordered.Perm r.descriptors := by
  have h := (Graph.emission_perm_range (closed_graph hr)).filterMap (r.descriptors[·]?)
  rwa [size_graph, ← atSlots, ← atSlots, atSlots_range] at h

theorem nodup_names_ordered (hr : r.Consistent) : (r.ordered.map Descriptor.fullName).Nodup :=
  ((ordered_perm hr).map _).nodup_iff.2 hr.nodup_names

/-- The class-likes that depend on one another, in the order of writing. -/
def cycles (r : Registry) : List (List Descriptor) :=
  r.graph.components.map r.atSlots

theorem ordered_eq_flatten (r : Registry) : r.ordered = r.cycles.flatten := by
  rw [ordered, Graph.emission, atSlots, List.filterMap_flatten]
  rfl

section cycles

variable (hr : r.Consistent) {c : List Descriptor}

include hr

theorem mem_cycle_iff (hc : c ∈ r.cycles) (ha : a ∈ c) : b ∈ c ↔ r.Linked a b := by
  obtain ⟨slots, hslots, rfl⟩ := List.mem_map.1 hc
  obtain ⟨i, hi, hia⟩ := mem_atSlots_iff.1 ha
  rw [mem_atSlots_iff]
  constructor
  · intro h
    obtain ⟨j, hj, hjb⟩ := h
    exact (linked_graph_iff hr hia hjb).1
      ((Graph.mem_component_iff (closed_graph hr) hslots hi).1 hj)
  · intro h
    obtain ⟨j, hjb⟩ := List.getElem?_of_mem (mem_of_reaches (List.mem_of_getElem? hia) h.1)
    exact ⟨j, (Graph.mem_component_iff (closed_graph hr) hslots hi).2
      ((linked_graph_iff hr hia hjb).2 h), hjb⟩

omit hr in
theorem cycle_sublist (hc : c ∈ r.cycles) : c.Sublist r.descriptors := by
  obtain ⟨slots, hslots, rfl⟩ := List.mem_map.1 hc
  have h := (Graph.component_sublist hslots).filterMap (r.descriptors[·]?)
  rwa [size_graph, ← atSlots, ← atSlots, atSlots_range] at h

theorem cycle_ne_nil (hc : c ∈ r.cycles) : c ≠ [] := by
  obtain ⟨slots, hslots, rfl⟩ := List.mem_map.1 hc
  obtain ⟨i, hi⟩ := List.exists_mem_of_ne_nil _ (Graph.component_ne_nil (closed_graph hr) hslots)
  have hlt := List.mem_range.1 ((Graph.component_sublist hslots).subset hi)
  rw [size_graph] at hlt
  exact List.ne_nil_of_mem (mem_atSlots_iff.2 ⟨i, hi, List.getElem?_eq_getElem hlt⟩)

theorem pairwise_cycles : r.cycles.Pairwise fun c d => ∀ a ∈ c, ∀ b ∈ d, ¬r.Reaches a b := by
  refine List.pairwise_map.2 ((Graph.pairwise_components (closed_graph hr)).imp ?_)
  intro c d h a ha b hb hab
  obtain ⟨i, hi, hia⟩ := mem_atSlots_iff.1 ha
  obtain ⟨j, hj, hjb⟩ := mem_atSlots_iff.1 hb
  exact h i hi j hj ((reaches_graph_iff hr hia hjb).2 hab)

/-- A class-like reaches a later one only if that reaches it in turn. -/
theorem pairwise_ordered : r.ordered.Pairwise fun a b => r.Reaches a b → r.Reaches b a := by
  rw [ordered_eq_flatten]
  apply List.pairwise_flatten.2
  constructor
  · intro c hc
    refine List.Pairwise.imp_of_mem (R := fun _ _ => True) ?_ (List.pairwise_of_forall (by simp))
    intro a b ha hb _ _
    exact ((mem_cycle_iff hr hc ha).1 hb).2
  · apply (pairwise_cycles hr).imp
    intro c d h a ha b hb hab
    exact absurd hab (h a ha b hb)

end cycles

end Stubsmith.Registry
