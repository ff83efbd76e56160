import Mathlib.Data.List.Induction
import Mathlib.Data.List.Nodup
import Mathlib.Logic.Relation
import Stubsmith.Hierarchy.Order

namespace Stubsmith.Registry

/-- The slots of names are the places of their descriptors. -/
def Consistent (r : Registry) : Prop :=
  ∀ name slot, r.slot? name = some slot ↔
    ∃ d, r.descriptors[slot]? = some d ∧ d.fullName = name

/-- The last descriptor of its name among some. -/
def Latest (ds : List Descriptor) (d : Descriptor) : Prop :=
  ∃ before after, ds = before ++ d :: after ∧ ∀ e ∈ after, e.fullName ≠ d.fullName

variable {r : Registry} {d e : Descriptor}

theorem insertAll_concat (r : Registry) (ds : List Descriptor) (d : Descriptor) :
    r.insertAll (ds ++ [d]) = (r.insertAll ds).insert d :=
  List.foldl_concat _ _ _ _

theorem consistent_empty : Consistent {} := by
  simp [Consistent, slot?]

theorem Consistent.slot?_lt (hr : r.Consistent) {name : String} {slot : Nat}
    (h : r.slot? name = some slot) : slot < r.descriptors.length := by
  obtain ⟨d, hd, -⟩ := (hr name slot).1 h
  exact (List.getElem?_eq_some_iff.1 hd).1

/-- A name without a slot is the name of no descriptor. -/
theorem Consistent.fullName_ne (hr : r.Consistent) {name : String} (h : r.slot? name = none)
    (he : e ∈ r.descriptors) : e.fullName ≠ name := by
  intro hname
  obtain ⟨slot, hslot⟩ := List.getElem?_of_mem he
  have hsome := (hr name slot).2 ⟨e, hslot, hname⟩
  rw [h] at hsome
  cases hsome

theorem Consistent.insert (hr : r.Consistent) (d : Descriptor) : (r.insert d).Consistent := by
  intro name i
  rw [Registry.insert]
  cases h : r.slot? d.fullName with
  | some slot =>
    have hlt := hr.slot?_lt h
    obtain ⟨old, hold, hname⟩ := (hr _ _).1 h
    have hi := hr name i
    simp only [slot?] at hi ⊢
    rw [hi]
    by_cases his : i = slot
    · subst his
      simp only [hold, List.getElem?_set_self hlt, Option.some.injEq, exists_eq_left', hname]
    · rw [List.getElem?_set_ne (Ne.symm his)]
  | none =>
    have hi := hr name i
    simp only [slot?] at hi ⊢
    rw [List.lookup_cons]
    by_cases hname : name = d.fullName
    · subst hname
      simp only [beq_self_eq_true, Option.some.injEq]
      constructor
      · rintro rfl
        exact ⟨d, by simp, rfl⟩
      · intro h
        obtain ⟨e, he, hed⟩ := h
        by_contra hne
        have hlt := (List.getElem?_eq_some_iff.1 he).1
        simp only [List.length_append, List.length_singleton] at hlt
        rw [List.getElem?_append_left (by omega)] at he
        exact hr.fullName_ne h (List.mem_of_getElem? he) hed
    · have hbeq : (name == d.fullName) = false := by simpa using hname
      simp only [hbeq]
      rw [hi]
      by_cases hlt : i < r.descriptors.length
      · rw [List.getElem?_append_left hlt]
      · rw [List.getElem?_eq_none (by omega)]
        constructor
        · simp
        · intro h
          obtain ⟨e, he, hen⟩ := h
          have hle := (List.getElem?_eq_some_iff.1 he).1
          simp only [List.length_append, List.length_singleton] at hle
          obtain rfl : i = r.descriptors.length := by omega
          obtain rfl : d = e := by simpa using he
          exact absurd hen.symm hname

theorem consistent_insertAll (ds : List Descriptor) (hr : r.Consistent) :
    (r.insertAll ds).Consistent := by
  induction ds generalizing r with
  | nil => exact hr
  | cons d ds ih => exact ih (hr.insert d)

theorem Consistent.nodup_names (hr : r.Consistent) :
    (r.descriptors.map Descriptor.fullName).Nodup := by
  apply List.nodup_iff_getElem?_ne_getElem?.2
  intro i j hij hj heq
  simp only [List.length_map] at hj
  have hi := (hr (r.descriptors[i]).fullName i).2 ⟨_, List.getElem?_eq_getElem (by omega), rfl⟩
  have hj' := (hr (r.descriptors[j]).fullName j).2 ⟨_, List.getElem?_eq_getElem hj, rfl⟩
  have hsame : (r.descriptors[i]).fullName = (r.descriptors[j]).fullName := by
    simpa [List.getElem?_eq_getElem, hj, show i < r.descriptors.length by omega] using heq
  rw [hsame, hj'] at hi
  simp at hi
  omega

/-- A registered descriptor is known by its name. -/
theorem Consistent.eq_of_fullName (hr : r.Consistent) (hd : d ∈ r.descriptors)
    (he : e ∈ r.descriptors) (h : d.fullName = e.fullName) : d = e :=
  List.inj_on_of_nodup_map hr.nodup_names hd he h

theorem Consistent.get?_eq_some_iff (hr : r.Consistent) {name : String} :
    r.get? name = some d ↔ d ∈ r.descriptors ∧ d.fullName = name := by
  rw [get?, Option.bind_eq_some_iff]
  constructor
  · intro h
    obtain ⟨slot, hslot, hd⟩ := h
    obtain ⟨e, he, hname⟩ := (hr name slot).1 hslot
    obtain rfl : e = d := by simpa [he] using hd
    exact ⟨List.mem_of_getElem? hd, hname⟩
  · intro h
    obtain ⟨hd, hname⟩ := h
    obtain ⟨slot, hslot⟩ := List.getElem?_of_mem hd
    exact ⟨slot, (hr name slot).2 ⟨d, hslot, hname⟩, hslot⟩

theorem Consistent.mem_descriptors_insert (hr : r.Consistent) :
    e ∈ (r.insert d).descriptors ↔ e = d ∨ e ∈ r.descriptors ∧ e.fullName ≠ d.fullName := by
  have hi := hr.insert d
  rw [Registry.insert] at hi ⊢
  cases h : r.slot? d.fullName with
  | some slot =>
    have hlt := hr.slot?_lt h
    obtain ⟨old, hold, hname⟩ := (hr _ _).1 h
    simp only [h] at hi ⊢
    constructor
    · intro he
      by_cases hed : e = d
      · exact .inl hed
      refine .inr ⟨(List.mem_or_eq_of_mem_set he).resolve_right hed, fun hn => hed ?_⟩
      exact hi.eq_of_fullName he (List.mem_set hlt d) hn
    · intro h
      rcases h with rfl | ⟨he, hn⟩
      · exact List.mem_set hlt e
      · obtain ⟨i, hi⟩ := List.getElem?_of_mem he
        refine List.mem_of_getElem? (i := i) ?_
        rw [List.getElem?_set_ne, hi]
        rintro rfl
        exact hn (by rw [hold] at hi; simp_all)
  | none =>
    simp only [List.mem_append, List.mem_singleton]
    constructor
    · intro h
      rcases h with he | rfl
      · exact .inr ⟨he, hr.fullName_ne h he⟩
      · exact .inl rfl
    · intro h
      rcases h with rfl | ⟨he, -⟩
      · exact .inr rfl
      · exact .inl he

/-- Some descriptor stays registered under every name. -/
theorem exists_mem_descriptors_insertAll (ds : List Descriptor) (h : d ∈ ds) :
    ∃ e ∈ (insertAll {} ds).descriptors, e.fullName = d.fullName := by
  induction ds using List.reverseRecOn with
  | nil => cases h
  | append_singleton ds x ih =>
    have hmem {e : Descriptor} :=
      (consistent_insertAll ds consistent_empty).mem_descriptors_insert (d := x) (e := e)
    rw [insertAll_concat]
    by_cases hx : d.fullName = x.fullName
    · exact ⟨x, hmem.2 (.inl rfl), hx.symm⟩
    · have hd : d ∈ ds := by
        rcases List.mem_append.1 h with hd | hd
        · exact hd
        · exact absurd (congrArg _ (List.mem_singleton.1 hd)) hx
      obtain ⟨e, he, hname⟩ := ih hd
      exact ⟨e, hmem.2 (.inr ⟨he, hname ▸ hx⟩), hname⟩

/-- The registered descriptors are the last ones of their names. -/
theorem mem_descriptors_insertAll_iff (ds : List Descriptor) :
    d ∈ (insertAll {} ds).descriptors ↔ Latest ds d := by
  induction ds using List.reverseRecOn with
  | nil => simp [insertAll, Latest]
  | append_singleton ds e ih =>
    rw [insertAll_concat, (consistent_insertAll ds consistent_empty).mem_descriptors_insert, ih]
    constructor
    · intro h
      rcases h with rfl | ⟨⟨before, after, rfl, hlast⟩, hne⟩
      · exact ⟨ds, [], by simp, by simp⟩
      · refine ⟨before, after ++ [e], by simp, ?_⟩
        intro x hx
        rcases List.mem_append.1 hx with hx | hx
        · exact hlast x hx
        · obtain rfl : x = e := by simpa using hx
          exact hne.symm
    · intro h
      obtain ⟨before, after, hds, hlast⟩ := h
      rcases List.eq_nil_or_concat after with rfl | ⟨after, z, rfl⟩
      · obtain ⟨-, he⟩ := List.append_inj' hds rfl
        exact .inl (by simpa using he.symm)
      · have hds' : ds ++ [e] = (before ++ d :: after) ++ [z] := by simpa using hds
        obtain ⟨hinit, he⟩ := List.append_inj' hds' rfl
        obtain rfl : e = z := by simpa using he
        refine .inr ⟨⟨before, after, hinit, fun x hx => hlast x (by simp [hx])⟩, ?_⟩
        exact (hlast e (by simp)).symm

end Stubsmith.Registry
