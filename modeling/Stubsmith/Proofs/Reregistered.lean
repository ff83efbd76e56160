import Stubsmith.Proofs.Reread

namespace Stubsmith.Registry

/-- The registry of class-likes that were declared in some namespaces. -/
def ofDeclared (given : List (String × ClassLike)) : Registry :=
  insertAll {} (given.map fun p => .ofClassLike p.1 p.2)

/-- The registry of class-likes in the groups in which they were written. -/
def ofGroups (gs : List Group) : Registry :=
  insertAll {} ((gs.flatMap Group.contents).filterMap Candidate.describe)

theorem consistent_ofDeclared (given : List (String × ClassLike)) : (ofDeclared given).Consistent :=
  consistent_insertAll _ consistent_empty

/-- Whatever is registered was described where it was declared. -/
theorem described_ofDeclared {given : List (String × ClassLike)} {d : Descriptor}
    (hd : d ∈ (ofDeclared given).descriptors) : d = .ofClassLike d.space d.classLike := by
  obtain ⟨before, after, hgiven, -⟩ := (mem_descriptors_insertAll_iff _).1 hd
  have hmem : d ∈ given.map fun p => Descriptor.ofClassLike p.1 p.2 := by simp [hgiven]
  obtain ⟨p, -, rfl⟩ := List.mem_map.1 hmem
  rfl

theorem ofGroups_groups (given : List (String × ClassLike)) :
    ofGroups (ofDeclared given).groups = insertAll {} (ofDeclared given).ordered := by
  rw [ofGroups, Candidate.filterMap_describe_groups (consistent_ofDeclared given)
    fun d => described_ofDeclared]

/-- Class-likes that are registered in order are written in the order of registration, and class-
likes that are registered again as they were written are written in the same groups again. -/
theorem groups_ofGroups (given : List (String × ClassLike)) :
    ((ofDeclared given).InOrder →
      (ofDeclared given).groups.flatMap Group.contents =
        (ofDeclared given).descriptors.map fun d => (d.space, d.toDecl)) ∧
      (ofGroups (ofDeclared given).groups).groups = (ofDeclared given).groups := by
  have hr := consistent_ofDeclared given
  constructor
  · intro ho
    rw [flatMap_contents_groups hr, ho.ordered_eq hr]
  · rw [ofGroups_groups, groups_eq (consistent_insertAll _ consistent_empty),
      ordered_insertAll_ordered hr, groups_eq hr]

/-- Order as it is read off the graph of slots. -/
theorem inOrder_of_joined {r : Registry} (hr : r.Consistent)
    (hneeds : ∀ i < r.graph.size, ∀ j < r.graph.size,
      j ∈ r.graph.next i → j ≤ i ∨ r.graph.joined i j)
    (hbetween : ∀ i < r.graph.size, ∀ j < r.graph.size, ∀ k < r.graph.size,
      i ≤ j ∧ j ≤ k ∧ r.graph.joined i k → r.graph.joined i j) : r.InOrder := by
  have hjoined {i j : Nat} {a b : Descriptor} (ha : r.descriptors[i]? = some a)
      (hb : r.descriptors[j]? = some b) : r.graph.joined i j ↔ r.Linked a b := by
    rw [Graph.joined_iff (closed_graph hr) (lt_size_graph ha) (lt_size_graph hb),
      linked_graph_iff hr ha hb]
  constructor
  · intro i j a b ha hb need
    rw [← hjoined ha hb]
    exact hneeds i (lt_size_graph ha) j (lt_size_graph hb)
      ((edge_graph_iff hr).2 ⟨a, b, ha, hb, need.2.2⟩)
  · intro i j k a b c hij hjk ha hb hc hlink
    rw [← hjoined ha hb]
    rw [← hjoined ha hc] at hlink
    exact hbetween i (lt_size_graph ha) j (lt_size_graph hb) k (lt_size_graph hc)
      ⟨hij, hjk, hlink⟩

/-- An interface, two classes that depend on one another and on it, and one that needs the second of
them. -/
def mutualClasses : List (String × ClassLike) :=
  [("", ⟨{ kind := .interfaceType, name := some "I" }, []⟩),
    ("N", ⟨{
      kind := .classType
      name := some "A"
      parents := ["\\N\\B"]
      interfaces := ["\\I"] }, []⟩),
    ("N", ⟨{ kind := .classType, name := some "B", parents := ["\\N\\A"] }, []⟩),
    ("", ⟨{ kind := .classType, name := some "C", parents := ["\\N\\B"] }, []⟩)]

theorem groups_mutualClasses :
    (ofDeclared mutualClasses).InOrder ∧
      (ofDeclared mutualClasses).groups.flatMap Group.contents =
        (ofDeclared mutualClasses).descriptors.map (fun d => (d.space, d.toDecl)) ∧
      ((ofDeclared mutualClasses).groups.flatMap Group.contents).map Prod.fst =
        ["", "N", "N", ""] ∧
      (ofDeclared mutualClasses).graph.joined 1 2 := by
  have ho : (ofDeclared mutualClasses).InOrder := by
    apply inOrder_of_joined (consistent_ofDeclared _)
    · decide +kernel
    · decide +kernel
  have hcontents := (groups_ofGroups mutualClasses).1 ho
  refine ⟨ho, hcontents, ?_, by decide +kernel⟩
  rw [hcontents]
  decide +kernel

end Stubsmith.Registry
