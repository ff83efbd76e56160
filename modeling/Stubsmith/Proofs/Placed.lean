import Mathlib.Data.List.Basic
import Mathlib.Data.List.Chain
import Stubsmith.Proofs.ResolverState

namespace Stubsmith

/-- What stands in a group, with the namespace of it. -/
def Group.contents (g : Group) : List (String × Decl) :=
  g.body.map (g.space, ·)

namespace Placement

theorem flatMap_append (gs : List Group) (d : Descriptor) :
    (append gs d).flatMap Group.contents = gs.flatMap Group.contents ++ [(d.space, d.toDecl)] := by
  induction gs with
  | nil => rfl
  | cons g gs ih =>
    cases gs with
    | nil =>
      rw [append]
      by_cases h : g.space = d.space <;> simp [Group.contents, h]
    | cons g' gs =>
      calc
        (append (g :: g' :: gs) d).flatMap Group.contents
          = g.contents ++ (append (g' :: gs) d).flatMap Group.contents := by
            rw [append, List.flatMap_cons]
        _ = (g :: g' :: gs).flatMap Group.contents ++ [(d.space, d.toDecl)] := by
            rw [ih, ← List.append_assoc, ← List.flatMap_cons]

/-- Groups of which none is empty, and no two that follow one another are of one namespace. -/
structure Separate (gs : List Group) : Prop where
  body_ne_nil : ∀ g ∈ gs, g.body ≠ []
  isChain : gs.IsChain fun g h => g.space ≠ h.space

theorem head?_append (g : Group) (gs : List Group) (d : Descriptor) :
    (append (g :: gs) d).head?.map Group.space = some g.space := by
  cases gs with
  | nil =>
    rw [append]
    by_cases h : g.space = d.space <;> simp [h]
  | cons => rfl

theorem Separate.append {gs : List Group} (h : Separate gs) (d : Descriptor) :
    Separate (append gs d) := by
  induction gs with
  | nil => exact ⟨by simp [Placement.append], by simp [Placement.append]⟩
  | cons g gs ih =>
    cases gs with
    | nil =>
      have hg := h.body_ne_nil g (by simp)
      rw [Placement.append]
      by_cases hd : g.space = d.space
      · rw [if_pos hd]
        exact ⟨by simp, by simp⟩
      · rw [if_neg hd]
        exact ⟨by simp [hg], by simp [hd]⟩
    | cons g' gs =>
      obtain ⟨hbody, hchain⟩ := h
      obtain ⟨hfirst, hrest⟩ := List.isChain_cons_cons.1 hchain
      have hlater := ih ⟨fun k hk => hbody k (by simp [hk]), hrest⟩
      have hhead := head?_append g' gs d
      rw [Placement.append]
      constructor
      · intro k hk
        rcases List.mem_cons.1 hk with rfl | hk
        · exact hbody k (by simp)
        · exact hlater.body_ne_nil k hk
      · apply hlater.isChain.cons
        intro k hk
        rw [Option.mem_def.1 hk, Option.map_some, Option.some.injEq] at hhead
        rw [hhead]
        exact hfirst

/-- The groups of descriptors that are written one after the other. -/
def groupsOf (ds : List Descriptor) : List Group :=
  ds.foldl append []

theorem flatMap_foldl_append (gs : List Group) (ds : List Descriptor) :
    (ds.foldl append gs).flatMap Group.contents =
      gs.flatMap Group.contents ++ ds.map fun d => (d.space, d.toDecl) := by
  induction ds generalizing gs with
  | nil => simp
  | cons d ds ih =>
    rw [List.foldl_cons, ih, flatMap_append, List.append_assoc, List.map_cons,
      List.singleton_append]

/-- The groups hold the descriptors that they are made of, in order and in their namespaces. -/
theorem flatMap_groupsOf (ds : List Descriptor) :
    (groupsOf ds).flatMap Group.contents = ds.map fun d => (d.space, d.toDecl) := by
  rw [groupsOf, flatMap_foldl_append, List.flatMap_nil, List.nil_append]

theorem separate_groupsOf (ds : List Descriptor) : Separate (groupsOf ds) := by
  have hfold {gs : List Group} (h : Separate gs) : Separate (ds.foldl append gs) := by
    induction ds generalizing gs with
    | nil => exact h
    | cons d ds ih => exact ih (h.append d)
  exact hfold ⟨by simp, by simp⟩

theorem emit_of_some {p : Placement} {i : Nat} {d : Descriptor} (h : p.slots.getD i none = some d) :
    p.emit i = ⟨p.slots.set i none, append p.groups d⟩ := by
  rw [emit, h]

theorem emit_of_none {p : Placement} {i : Nat} (h : p.slots.getD i none = none) : p.emit i = p := by
  rw [emit, h]

/-- Writing distinct slots writes what stands in them. -/
theorem groups_foldl_emit {slots : List Nat} (h : slots.Nodup) (p : Placement) :
    (slots.foldl emit p).groups =
      (slots.filterMap fun i => p.slots.getD i none).foldl append p.groups := by
  induction slots generalizing p with
  | nil => rfl
  | cons i slots ih =>
    obtain ⟨hi, hslots⟩ := List.nodup_cons.1 h
    rw [List.foldl_cons, ih hslots, List.filterMap_cons]
    cases hd : p.slots.getD i none with
    | none => rw [emit_of_none hd]
    | some d =>
      have hlt : i < p.slots.length := by
        apply Nat.lt_of_not_le
        intro hge
        rw [List.getD_eq_default _ _ hge] at hd
        cases hd
      have hrest : (slots.filterMap fun j => (p.slots.set i none).getD j none) =
          slots.filterMap fun j => p.slots.getD j none := by
        apply List.filterMap_congr
        intro j hj
        have hne : j ≠ i := by
          intro heq
          exact hi (heq ▸ hj)
        rw [Resolver.getD_set hlt, if_neg hne]
      rw [emit_of_some hd, List.foldl_cons, hrest]

end Placement

end Stubsmith
