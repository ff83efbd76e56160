import Mathlib.Data.Finset.Card
import Mathlib.Data.List.Nodup
import Stubsmith.Proofs.Registered

namespace Stubsmith.Registry

def names (r : Registry) : List String :=
  r.descriptors.map Descriptor.fullName

/-- A registry that stands for some descriptors in the order in which they were registered. -/
structure Represents (r : Registry) (ds : List Descriptor) : Prop where
  slot_iff : ∀ name slot, r.slot? name = some slot ↔
    slot < r.size ∧ ∃ d, r.descriptors[slot]? = some d ∧ d.fullName = name
  /-- No name is indexed twice, and the slots of the index are all slots, each once. -/
  index_names : (r.index.map Prod.fst).Nodup
  index_slots : (r.index.map Prod.snd).Perm (List.range r.size)
  nodup_names : r.names.Nodup
  mem_names_iff : ∀ name, name ∈ r.names ↔ ∃ d ∈ ds, d.fullName = name
  /-- Names stand in the order of their first places among those that were registered. -/
  first_order : r.names.Pairwise fun a b =>
    (ds.map Descriptor.fullName).idxOf a < (ds.map Descriptor.fullName).idxOf b
  get?_iff : ∀ name d, r.get? name = some d ↔ Latest ds d ∧ d.fullName = name
  get?_none_iff : ∀ name, r.get? name = none ↔ ∀ d ∈ ds, d.fullName ≠ name
  size_eq : r.size = (ds.map Descriptor.fullName).toFinset.card

variable {r : Registry} {d : Descriptor} {ds : List Descriptor}

theorem names_insert_of_some (hr : r.Consistent) {slot : Nat} (h : r.slot? d.fullName = some slot) :
    (r.insert d).names = r.names := by
  obtain ⟨old, hold, hname⟩ := (hr _ _).1 h
  have hget : r.names[slot]? = some d.fullName := by simp [names, hold, hname]
  obtain ⟨hlt, heq⟩ := List.getElem?_eq_some_iff.1 hget
  have hset : (r.insert d).names = r.names.set slot d.fullName := by
    simp [Registry.insert, h, names, List.map_set]
  rw [hset, ← heq, List.set_getElem_self]

theorem names_insert_of_none (h : r.slot? d.fullName = none) :
    (r.insert d).names = r.names ++ [d.fullName] := by
  simp [Registry.insert, h, names]

theorem mem_names_iff_isSome (hr : r.Consistent) {name : String} :
    name ∈ r.names ↔ (r.slot? name).isSome := by
  rw [Option.isSome_iff_exists, names, List.mem_map]
  constructor
  · intro h
    obtain ⟨d, hd, hname⟩ := h
    obtain ⟨slot, hslot⟩ := List.getElem?_of_mem hd
    exact ⟨slot, (hr name slot).2 ⟨d, hslot, hname⟩⟩
  · intro h
    obtain ⟨slot, hslot⟩ := h
    obtain ⟨d, hd, hname⟩ := (hr name slot).1 hslot
    exact ⟨d, List.mem_of_getElem? hd, hname⟩

/-- The index of a registry lists its names with their slots, the last one first. -/
theorem index_insertAll (ds : List Descriptor) :
    (insertAll {} ds).index = (insertAll {} ds).names.zipIdx.reverse := by
  induction ds using List.reverseRecOn with
  | nil => rfl
  | append_singleton ds d ih =>
    have hr : (insertAll {} ds).Consistent := consistent_insertAll ds consistent_empty
    rw [insertAll_concat]
    cases h : (insertAll {} ds).slot? d.fullName with
    | some slot =>
      rw [names_insert_of_some hr h, ← ih]
      simp [Registry.insert, h]
    | none =>
      rw [names_insert_of_none h, List.zipIdx_append, List.reverse_append, ← ih]
      simp [Registry.insert, h, names]

/-- The names of a registry are those that were registered, in the order of their first places. -/
theorem names_insertAll (ds : List Descriptor) :
    (∀ name, name ∈ (insertAll {} ds).names ↔ name ∈ ds.map Descriptor.fullName) ∧
      (insertAll {} ds).names.Pairwise fun a b =>
        (ds.map Descriptor.fullName).idxOf a < (ds.map Descriptor.fullName).idxOf b := by
  induction ds using List.reverseRecOn with
  | nil => simp [insertAll, names]
  | append_singleton ds d ih =>
    obtain ⟨hmem, horder⟩ := ih
    have hr : (insertAll {} ds).Consistent := consistent_insertAll ds consistent_empty
    have hplace : ∀ name ∈ (insertAll {} ds).names,
        ((ds ++ [d]).map Descriptor.fullName).idxOf name =
          (ds.map Descriptor.fullName).idxOf name := by
      intro name hname
      rw [List.map_append, List.idxOf_append, if_pos ((hmem name).1 hname)]
    have horder' : (insertAll {} ds).names.Pairwise fun a b =>
        ((ds ++ [d]).map Descriptor.fullName).idxOf a <
          ((ds ++ [d]).map Descriptor.fullName).idxOf b := by
      apply horder.imp_of_mem
      intro a b ha hb hlt
      rwa [hplace a ha, hplace b hb]
    rw [insertAll_concat]
    cases h : (insertAll {} ds).slot? d.fullName with
    | some slot =>
      have hold : d.fullName ∈ (insertAll {} ds).names := by simp [mem_names_iff_isSome hr, h]
      rw [names_insert_of_some hr h]
      refine ⟨fun name => ?_, horder'⟩
      rw [List.map_append, List.mem_append, ← hmem]
      simp only [List.map_singleton, List.mem_singleton]
      exact ⟨.inl, fun h => h.elim id fun h => h ▸ hold⟩
    | none =>
      have hnew : d.fullName ∉ ds.map Descriptor.fullName := by
        rw [← hmem, mem_names_iff_isSome hr, h]
        simp
      rw [names_insert_of_none h]
      refine ⟨fun name => by simp [hmem], List.pairwise_append.2 ⟨horder', by simp, ?_⟩⟩
      intro a ha b hb
      obtain rfl := List.mem_singleton.1 hb
      rw [hplace a ha, List.map_append, List.idxOf_append, if_neg hnew]
      have hlt := List.idxOf_lt_length_iff.2 ((hmem a).1 ha)
      omega

/-- Whatever is registered one after the other, the registry stands for it. -/
theorem represents_insertAll (ds : List Descriptor) : (insertAll {} ds).Represents ds := by
  have hr : (insertAll {} ds).Consistent := consistent_insertAll ds consistent_empty
  have hnodup : (insertAll {} ds).names.Nodup := hr.nodup_names
  obtain ⟨hmem, horder⟩ := names_insertAll ds
  have hlength : (insertAll {} ds).names.length = (insertAll {} ds).size := by simp [names, size]
  have hnever (name : String) : (∃ d ∈ ds, d.fullName = name) ↔ name ∈ (insertAll {} ds).names := by
    rw [hmem, List.mem_map]
  refine ⟨?_, ?_, ?_, hnodup, ?_, horder, ?_, ?_, ?_⟩
  · intro name slot
    rw [hr name slot]
    refine ⟨fun h => ⟨?_, h⟩, And.right⟩
    obtain ⟨d, hd, -⟩ := h
    exact (List.getElem?_eq_some_iff.1 hd).1
  · rw [index_insertAll, List.map_reverse, List.zipIdx_map_fst, List.nodup_reverse]
    exact hnodup
  · rw [index_insertAll, List.map_reverse, List.zipIdx_map_snd, ← List.range_eq_range', hlength]
    exact List.reverse_perm _
  · intro name
    exact (hnever name).symm
  · intro name d
    rw [hr.get?_eq_some_iff, mem_descriptors_insertAll_iff]
  · intro name
    have hsome : ((insertAll {} ds).get? name).isSome ↔ ∃ d ∈ ds, d.fullName = name := by
      rw [hnever, names, List.mem_map, Option.isSome_iff_exists]
      simp only [hr.get?_eq_some_iff]
    rw [← Option.not_isSome_iff_eq_none, hsome]
    simp
  · have hset : (insertAll {} ds).names.toFinset = (ds.map Descriptor.fullName).toFinset := by
      ext name
      rw [List.mem_toFinset, List.mem_toFinset, hmem]
    rw [← hlength, ← hset, List.toFinset_card_of_nodup hnodup]

end Stubsmith.Registry
