import Stubsmith.Proofs.EmissionOrder

namespace Stubsmith.Registry

/-- A registered class-like needs only those in slots before its own and those that it is linked to,
and nothing else stands between two class-likes that are linked. -/
structure InOrder (r : Registry) : Prop where
  needs : ∀ (i j : Nat) (a b : Descriptor), r.descriptors[i]? = some a → r.descriptors[j]? = some b →
    r.Needs a b → j ≤ i ∨ r.Linked a b
  between : ∀ (i j k : Nat) (a b c : Descriptor), i ≤ j → j ≤ k → r.descriptors[i]? = some a →
    r.descriptors[j]? = some b → r.descriptors[k]? = some c → r.Linked a c → r.Linked a b

variable {r : Registry} {a b c : Descriptor} {i j k : Nat}

theorem InOrder.ordered_graph (ho : r.InOrder) (hr : r.Consistent) : r.graph.Ordered where
  closed := closed_graph hr
  edge i j h := by
    obtain ⟨a, b, ha, hb, hname⟩ := (edge_graph_iff hr).1 h
    have need : r.Needs a b := ⟨List.mem_of_getElem? ha, List.mem_of_getElem? hb, hname⟩
    exact (ho.needs i j a b ha hb need).imp_right (linked_graph_iff hr ha hb).2
  between i j k hij hjk hlink := by
    by_cases hi : i < r.descriptors.length
    · have hk : k < r.graph.size := by
        rcases Relation.ReflTransGen.cases_tail hlink.1 with h | ⟨m, -, hedge⟩
        · rwa [h, size_graph]
        · exact closed_graph hr m k hedge
      rw [size_graph] at hk
      have ha := List.getElem?_eq_getElem hi
      have hb := List.getElem?_eq_getElem (show j < r.descriptors.length by omega)
      have hc := List.getElem?_eq_getElem hk
      have h := ho.between i j k _ _ _ hij hjk ha hb hc ((linked_graph_iff hr ha hc).1 hlink)
      exact (linked_graph_iff hr ha hb).2 h
    · -- a slot that nothing stands in leads nowhere
      have hik : i = k := by
        rcases Relation.ReflTransGen.cases_head hlink.1 with h | ⟨m, hedge, -⟩
        · exact h
        · obtain ⟨a, -, ha, -⟩ := (edge_graph_iff hr).1 hedge
          exact absurd (List.getElem?_eq_some_iff.1 ha).1 hi
      obtain rfl : i = j := by omega
      exact .refl _ i

/-- Class-likes that stand in order are written as they stand. -/
theorem InOrder.ordered_eq (ho : r.InOrder) (hr : r.Consistent) : r.ordered = r.descriptors := by
  rw [ordered, (ho.ordered_graph hr).emission_eq_range, size_graph]
  exact atSlots_range r

theorem descriptors_insertAll {ds : List Descriptor} (h : (ds.map Descriptor.fullName).Nodup) :
    (insertAll {} ds).descriptors = ds := by
  induction ds using List.reverseRecOn with
  | nil => rfl
  | append_singleton ds d ih =>
    rw [List.map_append] at h
    obtain ⟨hds, -, hnew⟩ := List.nodup_append.1 h
    have hfree : (insertAll {} ds).slot? d.fullName = none := by
      rw [Option.eq_none_iff_forall_ne_some]
      intro slot hslot
      obtain ⟨e, he, hname⟩ := (consistent_insertAll ds consistent_empty _ _).1 hslot
      rw [ih hds] at he
      exact hnew _ (List.mem_map_of_mem (List.mem_of_getElem? he)) _ (by simp) hname
    rw [insertAll_concat, insert, hfree]
    simp [ih hds]

section

variable {α : Type} {R : α → α → Prop} {blocks : List (List α)} {x y z : α}

/-- What stands between two members of a block belongs to the block. -/
theorem between_flatten (hin : ∀ c ∈ blocks, ∀ x ∈ c, ∀ y ∈ c, R x y)
    (hout : blocks.Pairwise fun c d => ∀ x ∈ c, ∀ y ∈ d, ¬R x y) (hij : i ≤ j) (hjk : j ≤ k)
    (hx : blocks.flatten[i]? = some x) (hy : blocks.flatten[j]? = some y)
    (hz : blocks.flatten[k]? = some z) (h : R x z) : R x y := by
  induction blocks generalizing i j k with
  | nil => simp at hx
  | cons c blocks ih =>
    obtain ⟨hfirst, hrest⟩ := List.pairwise_cons.1 hout
    rw [List.flatten_cons] at hx hy hz
    by_cases hi : i < c.length
    · rw [List.getElem?_append_left hi] at hx
      have hxc := List.mem_of_getElem? hx
      by_cases hk : k < c.length
      · rw [List.getElem?_append_left (by omega)] at hy
        exact hin c (by simp) x hxc y (List.mem_of_getElem? hy)
      · rw [List.getElem?_append_right (by omega)] at hz
        obtain ⟨d, hd, hzd⟩ := List.mem_flatten.1 (List.mem_of_getElem? hz)
        exact absurd h (hfirst d hd x hxc z hzd)
    · rw [List.getElem?_append_right (by omega)] at hx hy hz
      exact ih (fun c hc => hin c (by simp [hc])) hrest (by omega) (by omega) hx hy hz

end

/-- Registered again in the order in which they are written, class-likes stand in order. -/
theorem inOrder_insertAll_ordered (hr : r.Consistent) : (insertAll {} r.ordered).InOrder := by
  have hdescriptors : (insertAll {} r.ordered).descriptors = r.ordered :=
    descriptors_insertAll (nodup_names_ordered hr)
  have hneeds : (insertAll {} r.ordered).Needs = r.Needs := by
    funext a b
    simp only [Needs, hdescriptors, (ordered_perm hr).mem_iff]
  have hlinked (a b : Descriptor) : (insertAll {} r.ordered).Linked a b ↔ r.Linked a b := by
    rw [Linked, Linked, Reaches, Reaches, hneeds]
  constructor
  · intro i j a b ha hb need
    rw [hdescriptors] at ha hb
    rw [hneeds] at need
    rw [hlinked]
    by_cases hji : j ≤ i
    · exact .inl hji
    obtain ⟨hi, rfl⟩ := List.getElem?_eq_some_iff.1 ha
    obtain ⟨hj, rfl⟩ := List.getElem?_eq_some_iff.1 hb
    have back := List.pairwise_iff_getElem.1 (pairwise_ordered hr) i j hi hj (by omega) (.single need)
    exact .inr ⟨.single need, back⟩
  · intro i j k a b c hij hjk ha hb hc hlink
    rw [hdescriptors, ordered_eq_flatten] at ha hb hc
    rw [hlinked] at hlink ⊢
    refine between_flatten (fun c hc x hx y hy => (mem_cycle_iff hr hc hx).1 hy) ?_ hij hjk ha hb hc
      hlink
    exact (pairwise_cycles hr).imp fun h x hx y hy hxy => h x hx y hy hxy.1

/-- Writing class-likes, registering them as they are written and writing them again gives the same
order. -/
theorem ordered_insertAll_ordered (hr : r.Consistent) :
    (insertAll {} r.ordered).ordered = r.ordered := by
  have h := (inOrder_insertAll_ordered hr).ordered_eq (consistent_insertAll _ consistent_empty)
  rw [h, descriptors_insertAll (nodup_names_ordered hr)]

end Stubsmith.Registry
