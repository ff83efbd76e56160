import Stubsmith.Proofs.FlatWalk
import Stubsmith.Proofs.Settled
import Stubsmith.Proofs.StableOrder
import Stubsmith.Stubs.Result

namespace Stubsmith

/-- A declaration that stays where it stands when it is kept. -/
def Decl.isLoose : Decl → Bool
  | .space .. | .guarded .. | .classLike .. => false
  | _ => true

/-- A group without its class-likes, if that leaves anything. -/
def Group.loose (g : Group) : List Group :=
  let body := g.body.filter (!·.isClassLike)
  if body.isEmpty then [] else [⟨g.space, body⟩]

namespace Extract

@[simp]
theorem statements_result (x : Extract) (unparsed : List Unparsed) :
    (x.result unparsed).statements = x.assemble :=
  rfl

@[simp]
theorem duplicates_result (x : Extract) (unparsed : List Unparsed) :
    (x.result unparsed).duplicates = x.tally.duplicates :=
  rfl

/-- All that was found, in the order in which it is written. -/
def contents (x : Extract) : List (String × Decl) :=
  x.groups.flatMap Group.contents ++ x.statements.map ("", ·)

/-- The order of what was found: class-likes are registered with what they depend on, no namespace
is empty, and what stands in one or outside of all is loose. -/
structure Arranged (x : Extract) : Prop where
  consistent : x.classLikes.Consistent
  described : ∀ d ∈ x.classLikes.descriptors, d = .ofClassLike d.space d.classLike
  spaces : ∀ g ∈ x.spaces, g.body ≠ [] ∧ ∀ d ∈ g.body, d.isLoose
  statements : ∀ d ∈ x.statements, d.isLoose
  expressions : x.expressions = []

end Extract

namespace Candidate

open Request

variable {d : Decl} {n : Nat} {gs : List Group} {ds : List Decl}

theorem isClassLike_eq_false (h : d.isLoose) : d.isClassLike = false := by
  cases d with
  | classLike head body => simp [Decl.isLoose] at h
  | _ => rfl

theorem opened_eq_self {place : Option (Nat × String)} (h : d.isLoose ∨ d.isClassLike) :
    d.opened place = [⟨place, false, d⟩] := by
  cases d with
  | guarded condition body => simp [Decl.isLoose, Decl.isClassLike] at h
  | _ => rfl

def describe : String × Decl → Option Descriptor
  | (space, .classLike h body) => some (.ofClassLike space ⟨h, body⟩)
  | _ => none

theorem descriptor?_eq (c : Candidate) : c.descriptor? = describe c.located := by
  obtain ⟨place, guarded, decl⟩ := c
  cases decl <;> rfl

/-- The descriptors of class-likes that were written, described again where they stand, are the same
in the order of writing. -/
theorem filterMap_describe_groups {r : Registry} (hr : r.Consistent)
    (hdescribed : ∀ d ∈ r.descriptors, d = .ofClassLike d.space d.classLike) :
    (r.groups.flatMap Group.contents).filterMap describe = r.ordered := by
  rw [Registry.flatMap_contents_groups hr, List.filterMap_map]
  refine (List.filterMap_congr ?_).trans List.filterMap_some
  intro d hd
  have hmem := (Registry.ordered_perm hr).mem_iff.1 hd
  exact congrArg some (hdescribed d hmem).symm

theorem getD_space_toDecl (g : Group) :
    (if g.space = "" then none else some g.space).getD "" = g.space := by
  by_cases h : g.space = "" <;> simp [h]

theorem candidates_toDecl {g : Group} (h : ∀ d ∈ g.body, d.isLoose ∨ d.isClassLike) :
    g.toDecl.candidates n = g.body.map fun d => ⟨some (n, g.space), false, d⟩ := by
  rw [Group.toDecl, Decl.candidates, getD_space_toDecl]
  calc
    g.body.flatMap (Decl.opened (some (n, g.space)))
      = g.body.flatMap fun d => [⟨some (n, g.space), false, d⟩] :=
        List.flatMap_congr fun d hd => opened_eq_self (h d hd)
    _ = g.body.map fun d => ⟨some (n, g.space), false, d⟩ := by simp [← List.map_eq_flatMap]

theorem spacesFrom_toDecl (g : Group) :
    spacesFrom n (g.body.map fun d => ⟨some (n, g.space), false, d⟩) [g.toDecl] = g.loose := by
  have hbody : placedIn (some (n, g.space)) (g.body.map fun d => ⟨some (n, g.space), false, d⟩) =
      g.body.filter (!·.isClassLike) := by
    simp [placedIn, List.filter_map, Function.comp_def]
  simp only [Group.toDecl, spacesFrom, getD_space_toDecl, hbody, List.append_nil, Group.loose]

/-- Groups are read back in order, without their class-likes. -/
theorem candidatesFrom_groups (h : ∀ g ∈ gs, ∀ d ∈ g.body, d.isLoose ∨ d.isClassLike) (n : Nat) :
    let cs := Decl.candidatesFrom n (gs.map Group.toDecl)
    cs.map located = gs.flatMap Group.contents ∧
      (∀ c ∈ cs, c.guarded = false ∧ c.place ≠ none) ∧
      spacesFrom n cs (gs.map Group.toDecl) = gs.flatMap Group.loose := by
  induction gs generalizing n with
  | nil => simp [Decl.candidatesFrom, spacesFrom]
  | cons g gs ih =>
    obtain ⟨hlocated, hplace, hspaces⟩ := ih (fun g hg => h g (by simp [hg])) (n + 1)
    simp only [List.map_cons, Decl.candidatesFrom, candidates_toDecl (n := n) (h g (by simp))]
    refine ⟨?_, ?_, ?_⟩
    · rw [List.map_append, hlocated, List.flatMap_cons]
      simp [Group.contents, located, space, Function.comp_def]
    · intro c hc
      rcases List.mem_append.1 hc with hc | hc
      · obtain ⟨d, -, rfl⟩ := List.mem_map.1 hc
        simp
      · exact hplace c hc
    · rw [spacesFrom_cons, hspaces, spacesFrom_toDecl, List.flatMap_cons]
      · intro c hc
        obtain ⟨d, -, rfl⟩ := List.mem_map.1 hc
        rw [Group.toDecl, Decl.site, getD_space_toDecl]
      · intro c hc m space hp
        exact block_of_mem_candidatesFrom hc hp

theorem candidatesFrom_eq_map (h : ∀ d ∈ ds, d.isLoose ∨ d.isClassLike) (n : Nat) :
    Decl.candidatesFrom n ds = ds.map fun d => ⟨none, false, d⟩ := by
  induction ds generalizing n with
  | nil => rfl
  | cons d ds ih =>
    have hd := h d (by simp)
    have hns : ∀ name body, d ≠ .space name body := by
      rintro name body rfl
      simp [Decl.isLoose, Decl.isClassLike] at hd
    rw [Decl.candidatesFrom, candidates_eq_opened hns, opened_eq_self hd,
      ih fun e he => h e (by simp [he])]
    rfl

theorem spacesFrom_eq_nil (h : ∀ d ∈ ds, d.isLoose ∨ d.isClassLike) (n : Nat)
    (kept : List Candidate) : spacesFrom n kept ds = [] := by
  induction ds generalizing n with
  | nil => rfl
  | cons d ds ih =>
    have hd := h d (by simp)
    have hrest := ih (fun e he => h e (by simp [he])) (n + 1)
    cases d with
    | space name body => simp [Decl.isLoose, Decl.isClassLike] at hd
    | _ => exact hrest

end Candidate

namespace Decl

variable {ds : List Decl}

theorem spread_eq_map (h : ∀ d ∈ ds, d.isLoose ∨ d.isClassLike) : spread ds = ds.map (none, ·) := by
  rw [spread, List.map_eq_flatMap]
  apply List.flatMap_congr
  intro d hd
  cases d with
  | space name body =>
    have hnot := h _ hd
    simp [isLoose, isClassLike] at hnot
  | _ => rfl

theorem spread_toDecl (gs : List Group) :
    (spread (gs.map Group.toDecl)).map (fun p => (p.1.getD "", p.2)) =
      gs.flatMap Group.contents := by
  rw [spread, List.flatMap_map, List.map_flatMap]
  apply List.flatMap_congr
  intro g _
  simp [Group.toDecl, Group.contents, Candidate.getD_space_toDecl]

end Decl

namespace Group

theorem loose_eq_nil {g : Group} (h : ∀ d ∈ g.body, d.isClassLike) : g.loose = [] := by
  have hbody : g.body.filter (!·.isClassLike) = [] :=
    List.filter_eq_nil_iff.2 fun d hd => by simp [h d hd]
  simp [loose, hbody]

theorem loose_eq_self {g : Group} (hne : g.body ≠ []) (h : ∀ d ∈ g.body, d.isLoose) :
    g.loose = [g] := by
  have hbody : g.body.filter (!·.isClassLike) = g.body :=
    List.filter_eq_self.2 fun d hd => by simp [Candidate.isClassLike_eq_false (h d hd)]
  simp [loose, hbody, hne]

end Group

namespace Extract

open Candidate

/-- The groups of what is no class-like, where not all groups are global. -/
def looseParts (x : Extract) : List Group :=
  x.spaces ++ if x.statements.isEmpty then [] else [⟨"", x.statements⟩]

/-- The groups of the stubs where not all are global. -/
def parts (x : Extract) : List Group :=
  x.classLikes.groups ++ x.looseParts

namespace Arranged

variable {x : Extract} (hx : x.Arranged)

theorem isClassLike_of_mem_groups {r : Registry} {g : Group} {d : Decl} (hr : r.Consistent)
    (hg : g ∈ r.groups) (hd : d ∈ g.body) : d.isClassLike := by
  have hmem : d ∈ r.groups.flatMap Group.body := List.mem_flatMap.2 ⟨g, hg, hd⟩
  rw [Registry.flatMap_body_groups hr] at hmem
  obtain ⟨e, -, rfl⟩ := List.mem_map.1 hmem
  rfl

include hx

theorem loose_or_classLike {g : Group} {d : Decl} (hg : g ∈ x.groups) (hd : d ∈ g.body) :
    d.isLoose ∨ d.isClassLike := by
  rcases List.mem_append.1 hg with hg | hg
  · exact .inr (isClassLike_of_mem_groups hx.consistent hg hd)
  · exact .inl ((hx.spaces g hg).2 d hd)

omit hx in
theorem describe_eq_none {p : String × Decl} (h : p.2.isLoose) : describe p = none := by
  obtain ⟨space, d⟩ := p
  cases d with
  | classLike head body => simp [Decl.isLoose] at h
  | _ => rfl

/-- The descriptors of what is read back are those that were written. -/
theorem filterMap_describe : x.contents.filterMap describe = x.classLikes.ordered := by
  have hclassLikes : (x.classLikes.groups.flatMap Group.contents).filterMap describe =
      x.classLikes.ordered := filterMap_describe_groups hx.consistent hx.described
  have hspaces : (x.spaces.flatMap Group.contents).filterMap describe = [] := by
    apply List.filterMap_eq_nil_iff.2
    intro p hp
    obtain ⟨g, hg, hp⟩ := List.mem_flatMap.1 hp
    obtain ⟨d, hd, rfl⟩ := List.mem_map.1 hp
    exact describe_eq_none ((hx.spaces g hg).2 d hd)
  have hstatements : (x.statements.map fun d => ("", d)).filterMap describe = [] := by
    apply List.filterMap_eq_nil_iff.2
    intro p hp
    obtain ⟨d, hd, rfl⟩ := List.mem_map.1 hp
    exact describe_eq_none (hx.statements d hd)
  simp only [contents, groups, List.flatMap_append, List.filterMap_append, hclassLikes, hspaces,
    hstatements, List.append_nil]

theorem filter_classLike_groups :
    (x.classLikes.groups.flatMap Group.body).filter (!·.isClassLike) = [] := by
  apply List.filter_eq_nil_iff.2
  intro d hd
  obtain ⟨g, hg, hd⟩ := List.mem_flatMap.1 hd
  simp [isClassLike_of_mem_groups hx.consistent hg hd]

omit hx in
/-- Where everything is global, all that was found is written without a namespace. -/
theorem contents_eq_map (hglobal : x.groups.all Group.isGlobal) :
    x.contents = (x.groups.flatMap Group.body ++ x.statements).map ("", ·) := by
  have hgroups : x.groups.flatMap Group.contents =
      (x.groups.flatMap Group.body).map fun d => ("", d) := by
    rw [List.map_flatMap]
    apply List.flatMap_congr
    intro g hg
    have hspace : g.space = "" := by simpa [Group.isGlobal] using List.all_eq_true.1 hglobal g hg
    rw [Group.contents, hspace]
  rw [contents, hgroups, List.map_append]

omit hx in
theorem parts_eq :
    x.parts = x.groups ++ if x.statements.isEmpty then [] else [⟨"", x.statements⟩] := by
  rw [parts, looseParts, groups, List.append_assoc]

omit hx in
theorem flatMap_contents_parts : x.parts.flatMap Group.contents = x.contents := by
  rw [parts_eq, contents, List.flatMap_append]
  cases x.statements <;> simp [Group.contents]

omit hx in
theorem mem_contents_of_mem_parts {g : Group} {d : Decl} (hg : g ∈ x.parts) (hd : d ∈ g.body) :
    (g.space, d) ∈ x.contents := by
  rw [← flatMap_contents_parts]
  exact List.mem_flatMap.2 ⟨g, hg, List.mem_map_of_mem hd⟩

theorem loose_of_mem_looseParts {g : Group} (hg : g ∈ x.looseParts) :
    g.body ≠ [] ∧ ∀ d ∈ g.body, d.isLoose := by
  rcases List.mem_append.1 hg with hg | hg
  · exact hx.spaces g hg
  · obtain ⟨hne, rfl⟩ : ¬x.statements.isEmpty ∧ g = ⟨"", x.statements⟩ := by simpa using hg
    exact ⟨by simpa using hne, hx.statements⟩

theorem assemble_global (hglobal : x.groups.all Group.isGlobal) :
    x.assemble = x.groups.flatMap Group.body ++ x.statements := by
  rw [assemble, if_pos hglobal, hx.expressions, List.append_nil]

theorem loose_or_classLike_of_global (hglobal : x.groups.all Group.isGlobal) {d : Decl}
    (hd : d ∈ x.assemble) : d.isLoose ∨ d.isClassLike := by
  rw [hx.assemble_global hglobal] at hd
  rcases List.mem_append.1 hd with hd | hd
  · obtain ⟨g, hg, hd⟩ := List.mem_flatMap.1 hd
    exact hx.loose_or_classLike hg hd
  · exact .inl (hx.statements d hd)

/-- Where everything is global, what is read back is loose and stands outside of all namespaces. -/
theorem reread_global (hglobal : x.groups.all Group.isGlobal) :
    let cs := Decl.candidatesFrom 0 x.assemble
    cs.map located = x.contents ∧ (∀ c ∈ cs, c.guarded = false) ∧
      spacesFrom 0 cs x.assemble = [] ∧
      placedIn none cs = x.spaces.flatMap Group.body ++ x.statements := by
  have hassemble := hx.assemble_global hglobal
  have hall : ∀ d ∈ x.assemble, d.isLoose ∨ d.isClassLike :=
    fun d hd => hx.loose_or_classLike_of_global hglobal hd
  intro cs
  have hcs : cs = x.assemble.map fun d => ⟨none, false, d⟩ := candidatesFrom_eq_map hall 0
  refine ⟨?_, ?_, spacesFrom_eq_nil hall 0 cs, ?_⟩
  · rw [hcs, contents_eq_map hglobal, ← hassemble, List.map_map]
    rfl
  · intro c hc
    rw [hcs] at hc
    obtain ⟨d, -, rfl⟩ := List.mem_map.1 hc
    rfl
  · have hplaced : placedIn none cs = x.assemble.filter (!·.isClassLike) := by
      simp [hcs, placedIn, List.filter_map, Function.comp_def]
    have hloose : (x.spaces.flatMap Group.body ++ x.statements).filter (!·.isClassLike) =
        x.spaces.flatMap Group.body ++ x.statements := by
      apply List.filter_eq_self.2
      intro d hd
      rcases List.mem_append.1 hd with hd | hd
      · obtain ⟨g, hg, hd⟩ := List.mem_flatMap.1 hd
        simp [isClassLike_eq_false ((hx.spaces g hg).2 d hd)]
      · simp [isClassLike_eq_false (hx.statements d hd)]
    rw [hplaced, hassemble, groups, List.flatMap_append, List.append_assoc, List.filter_append,
      hx.filter_classLike_groups, hloose, List.nil_append]

omit hx in
theorem globalSpace_eq (ds : List Decl) :
    globalSpace ds = (if ds.isEmpty then [] else [(⟨"", ds⟩ : Group)]).map Group.toDecl := by
  cases ds <;> rfl

/-- Where not everything is global, what is read back stands in the groups that were written, and
the class-likes are gone from them. -/
theorem reread_parts (hglobal : x.groups.all Group.isGlobal = false) :
    let cs := Decl.candidatesFrom 0 x.assemble
    x.assemble = x.parts.map Group.toDecl ∧ cs.map located = x.contents ∧
      (∀ c ∈ cs, c.guarded = false) ∧
      spacesFrom 0 cs x.assemble = x.looseParts ∧ placedIn none cs = [] := by
  have hassemble : x.assemble = x.parts.map Group.toDecl := by
    have hnone : globalSpace [] = [] := rfl
    rw [assemble, if_neg (by simp [hglobal]), hx.expressions, parts_eq, List.map_append,
      globalSpace_eq x.statements, hnone, List.append_nil]
  have hall : ∀ g ∈ x.parts, ∀ d ∈ g.body, d.isLoose ∨ d.isClassLike := by
    intro g hg d hd
    rcases List.mem_append.1 hg with hg | hg
    · exact .inr (isClassLike_of_mem_groups hx.consistent hg hd)
    · exact .inl ((hx.loose_of_mem_looseParts hg).2 d hd)
  intro cs
  obtain ⟨hlocated, hplace, hspaces⟩ := candidatesFrom_groups hall 0
  rw [← hassemble] at hlocated hplace hspaces
  refine ⟨hassemble, ?_, fun c hc => (hplace c hc).1, ?_, ?_⟩
  · rw [hlocated, flatMap_contents_parts]
  · have hclassLikes : x.classLikes.groups.flatMap Group.loose = [] :=
      List.flatMap_eq_nil_iff.2 fun g hg => Group.loose_eq_nil fun d hd =>
        isClassLike_of_mem_groups hx.consistent hg hd
    have hself : x.looseParts.flatMap Group.loose = x.looseParts := by
      calc
        x.looseParts.flatMap Group.loose
          = x.looseParts.flatMap fun g => [g] := by
            apply List.flatMap_congr
            intro g hg
            obtain ⟨hne, hloose⟩ := hx.loose_of_mem_looseParts hg
            exact Group.loose_eq_self hne hloose
        _ = x.looseParts := by simp
    rw [hspaces, parts, List.flatMap_append, hclassLikes, List.nil_append, hself]
  · exact placedIn_eq_nil fun c hc => (hplace c hc).2

/-- What is read back of the stubs is what was found, in order and behind no guard. -/
theorem reread :
    (Decl.candidatesFrom 0 x.assemble).map located = x.contents ∧
      ∀ c ∈ Decl.candidatesFrom 0 x.assemble, c.guarded = false := by
  cases hglobal : x.groups.all Group.isGlobal with
  | true =>
    obtain ⟨hlocated, hguard, -⟩ := hx.reread_global hglobal
    exact ⟨hlocated, hguard⟩
  | false =>
    obtain ⟨-, hlocated, hguard, -⟩ := hx.reread_parts hglobal
    exact ⟨hlocated, hguard⟩

/-- The stubs hold what was found, in order. -/
theorem spread_assemble :
    (Decl.spread x.assemble).map (fun p => (p.1.getD "", p.2)) = x.contents := by
  cases hglobal : x.groups.all Group.isGlobal with
  | true =>
    have hspread : Decl.spread x.assemble = x.assemble.map (none, ·) :=
      Decl.spread_eq_map fun d hd => hx.loose_or_classLike_of_global hglobal hd
    rw [hspread, contents_eq_map hglobal, ← hx.assemble_global hglobal, List.map_map]
    rfl
  | false =>
    rw [(hx.reread_parts hglobal).1, Decl.spread_toDecl, flatMap_contents_parts]

/-- What keeps all that is read back of some stubs as it is is made into the same stubs. -/
theorem assemble_reread {y : Extract}
    (hspaces : y.spaces = spacesFrom 0 (Decl.candidatesFrom 0 x.assemble) x.assemble)
    (hstatements : y.statements = placedIn none (Decl.candidatesFrom 0 x.assemble))
    (hexpressions : y.expressions = [])
    (hclassLikes : y.classLikes =
      Registry.insertAll {} ((Decl.candidatesFrom 0 x.assemble).filterMap descriptor?)) :
    y.assemble = x.assemble := by
  have hgroups : y.classLikes.groups = x.classLikes.groups := by
    have hdescribe : (Decl.candidatesFrom 0 x.assemble).filterMap descriptor? =
        x.classLikes.ordered := by
      rw [← hx.filterMap_describe, ← hx.reread.1, List.filterMap_map]
      exact List.filterMap_congr fun c _ => descriptor?_eq c
    rw [hclassLikes, hdescribe, Registry.groups_eq hx.consistent,
      Registry.groups_eq (Registry.consistent_insertAll _ Registry.consistent_empty),
      Registry.ordered_insertAll_ordered hx.consistent]
  cases hglobal : x.groups.all Group.isGlobal with
  | true =>
    obtain ⟨-, -, hnone, hplaced⟩ := hx.reread_global hglobal
    have hy : y.groups = x.classLikes.groups := by
      rw [groups, hgroups, hspaces, hnone, List.append_nil]
    have hyglobal : y.groups.all Group.isGlobal := by
      rw [groups, List.all_append, Bool.and_eq_true] at hglobal
      rw [hy]
      exact hglobal.1
    rw [assemble, if_pos hyglobal, hy, hstatements, hplaced, hexpressions, assemble, if_pos hglobal,
      hx.expressions, groups, List.flatMap_append, List.append_assoc, List.append_assoc]
    simp
  | false =>
    obtain ⟨hparts, -, -, hspaces', hplaced⟩ := hx.reread_parts hglobal
    have hy : y.groups = x.parts := by
      rw [groups, hgroups, hspaces, hspaces', parts]
    have hyglobal : y.groups.all Group.isGlobal = false := by
      rw [hy, parts_eq, List.all_append, hglobal, Bool.false_and]
    rw [hparts, assemble, if_neg (by simp [hyglobal]), hy, hstatements, hplaced, hexpressions]
    simp [globalSpace]

end Arranged

end Extract

end Stubsmith
