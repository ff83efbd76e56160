import Stubsmith.Proofs.EmissionOrder
import Stubsmith.Proofs.Resolution
import Stubsmith.Syntax.Member

namespace Stubsmith

namespace QualifiedName

/-- The name of what is declared in a namespace, without a backslash before it. -/
def bareIn (space : Option String) (name : String) : String :=
  match space with
  | some space => space ++ "\\" ++ name
  | none => name

theorem globally_cons (name : String) : globally ("\\" ++ name) = globally name := by
  simp [globally, Text.dropLeading]

theorem globally_bareIn (space : Option String) (name : String) :
    globally (bareIn space name) = inNamespace (space.getD "") name := by
  cases space with
  | none =>
    have hempty : "" ++ "\\" ++ name = "\\" ++ name := by simp
    rw [Option.getD_none, inNamespace, hempty, globally_cons, bareIn]
  | some space => rfl

end QualifiedName

namespace Scope

open QualifiedName

theorem within_eq (s : Scope) (name : String) : s.within name = "\\" ++ bareIn s.space name := by
  cases hspace : s.space with
  | none => simp [within, bareIn, hspace]
  | some space => simp [within, bareIn, hspace, String.append_assoc]

end Scope

namespace Syntax

open QualifiedName Scope

/-- The ways to spell the class-like `name` of the namespace `space` in the namespace `here`, where
some imports were made. -/
inductive Spells (here : Option String) (imports : List Import) (space : Option String)
    (name : String) : String → Prop where
  | unqualified (inside : here = space) (free : ∀ i ∈ imports, ¬i.Binds name) :
      Spells here imports space name name
  | relative {keyword : String} (inside : here = space)
      (isKeyword : Text.lowercase keyword = "namespace") :
      Spells here imports space name (keyword ++ "\\" ++ name)
  | absolute : Spells here imports space name ("\\" ++ bareIn space name)
  | imported {short : String} (plain : '\\' ∉ short.toList)
      (free : Scope.isReservedClass short = false)
      (bound : InForce imports short (bareIn space name)) :
      Spells here imports space name short
  | importedPart {short part rest : String} (plain : '\\' ∉ short.toList) (ne : short ≠ "")
      (free : Text.lowercase short ≠ "namespace") (bound : InForce imports short part)
      (split : bareIn space name = part ++ "\\" ++ rest) :
      Spells here imports space name (short ++ "\\" ++ rest)

variable {imports : List Import} {space : Option String} {name text : String}

/-- Every spelling comes to the full name. -/
theorem Spells.globally_resolveClass {given : Option String}
    (h : Spells (start given).space imports space name text) (hplain : '\\' ∉ name.toList)
    (hfree : isReservedClass name = false) :
    globally (((start given).after imports).resolveClass text) =
      inNamespace (space.getD "") name := by
  have hspace : ((start given).after imports).space = (start given).space := space_after
  rw [← globally_bareIn]
  cases h with
  | unqualified inside free =>
    rw [resolveClass_of_plain hplain hfree, (imported?_eq_none_iff given).2 free]
    simp only [within_eq, hspace, inside, globally_cons]
  | @relative keyword inside isKeyword =>
    have hword : '\\' ∉ keyword.toList := by
      rw [← Text.mem_lowercase, isKeyword]
      decide
    have hne : keyword ≠ "" := by
      rintro rfl
      exact absurd isKeyword (by decide)
    rw [resolveClass_append hword hne, if_pos isKeyword, within_eq, hspace, inside, globally_cons]
  | absolute => rw [resolveClass_absolute, globally_cons]
  | imported plain free bound =>
    rw [resolveClass_of_plain plain free, (imported?_eq_some_iff given).2 bound]
    exact globally_cons _
  | importedPart plain ne free bound split =>
    rw [resolveClass_append plain ne, if_neg free, (imported?_eq_some_iff given).2 bound, split]
    simp only [String.append_assoc, globally_cons]

/-- The names that stand directly below a node. -/
def nameNodes (t : Tree) : List Tree :=
  t.namedChildren.filter fun n => isNameKind n.kind

def clauseNodes (t : Tree) (clause : String) : List Tree :=
  ((t.childOfKind? clause).map nameNodes).getD []

def classBody? (t : Tree) : Option Tree :=
  (t.child? "body" <|> t.childOfKind? "declaration_list") <|>
    t.childOfKind? "enum_declaration_list"

def traitNodes (t : Tree) : List Tree :=
  ((classBody? t).map fun body =>
    (body.namedChildren.filter (·.kind == "use_declaration")).flatMap nameNodes).getD []

/-- The names in the lists that a class-like of a kind has: those of what it implements, extends and
uses. -/
def listedNodes (kind : ClassKind) (t : Tree) : List Tree :=
  match kind with
  | .classType =>
    clauseNodes t "class_interface_clause" ++ clauseNodes t "base_clause" ++ traitNodes t
  | .interfaceType => clauseNodes t "base_clause"
  | .enumType => clauseNodes t "class_interface_clause" ++ traitNodes t
  | .traitType => traitNodes t

section

variable (source : String) (scope : Scope)

theorem clauseNames_eq (t : Tree) (clause : String) :
    clauseNames source scope t clause =
      (clauseNodes t clause).map fun n => scope.resolveClass (n.text source) := by
  rw [clauseNames, clauseNodes]
  cases t.childOfKind? clause <;> rfl

theorem usedTraits_memberOf? (p : Placed) :
    (memberOf? source scope p).toList.flatMap Descriptor.usedTraits =
      if p.tree.kind == "use_declaration" then
        (nameNodes p.tree).map fun n => scope.resolveClass (n.text source)
      else [] := by
  unfold memberOf?
  split
  case h_5 h => simp [h, traitUseOf, Descriptor.usedTraits, nameNodes]
  case h_7 =>
    next huse _ => simp [beq_false_of_ne huse, Descriptor.usedTraits]
  all_goals
    next h => simp [h, methodOf, propertyOf, classConstOf, enumCaseOf, Descriptor.usedTraits]

theorem map_tree_placeAll (before ts : List Tree) : (placeAll before ts).map Placed.tree = ts := by
  induction ts generalizing before with
  | nil => rfl
  | cons t ts ih => rw [placeAll, List.map_cons, ih]

theorem map_tree_namedPlaced (t : Tree) : t.namedPlaced.map Placed.tree = t.namedChildren := by
  have hfilter := List.filter_map (p := Tree.isNamed) (f := Placed.tree) (l := placeAll [] t.children)
  rw [map_tree_placeAll] at hfilter
  exact hfilter.symm

theorem flatMap_usedTraits (body : Tree) :
    (body.namedPlaced.filterMap (memberOf? source scope)).flatMap Descriptor.usedTraits =
      ((body.namedChildren.filter (·.kind == "use_declaration")).flatMap nameNodes).map fun n =>
        scope.resolveClass (n.text source) := by
  rw [List.filterMap_eq_flatMap_toList, List.flatMap_assoc, ← map_tree_namedPlaced]
  simp only [usedTraits_memberOf?]
  rw [List.map_flatMap]
  generalize body.namedPlaced = ps
  induction ps with
  | nil => rfl
  | cons p ps ih =>
    rw [List.flatMap_cons, ih, List.map_cons, List.filter_cons]
    by_cases h : p.tree.kind == "use_declaration" <;> simp [h]

theorem usedTraits_classLikeOf (kind : ClassKind) (p : Placed) :
    ∃ head body, classLikeOf source scope kind p = .classLike head body ∧ head.kind = kind ∧
      head.parents = clauseNames source scope p.tree "base_clause" ∧
      head.interfaces = clauseNames source scope p.tree "class_interface_clause" ∧
      body.flatMap Descriptor.usedTraits =
        (traitNodes p.tree).map fun n => scope.resolveClass (n.text source) := by
  refine ⟨_, _, rfl, rfl, rfl, rfl, ?_⟩
  rw [traitNodes]
  cases hbody : classBody? p.tree with
  | none =>
    rw [classBody?] at hbody
    simp only [hbody]
    rfl
  | some body =>
    rw [classBody?] at hbody
    simp only [hbody]
    exact flatMap_usedTraits source scope body

/-- What a class-like depends on are the names in its lists, resolved. -/
theorem dependencies_classLikeOf (kind : ClassKind) (p : Placed) :
    ∃ head body, classLikeOf source scope kind p = .classLike head body ∧
      ∀ here, (Descriptor.ofClassLike here ⟨head, body⟩).dependencies =
        (listedNodes kind p.tree).map fun n => globally (scope.resolveClass (n.text source)) := by
  obtain ⟨head, body, hdecl, hkind, hparents, hinterfaces, htraits⟩ :=
    usedTraits_classLikeOf source scope kind p
  refine ⟨head, body, hdecl, fun here => ?_⟩
  simp only [Descriptor.ofClassLike, Descriptor.headNames, Descriptor.bodyNames, hkind, hparents,
    hinterfaces, htraits, clauseNames_eq]
  cases kind <;> simp [listedNodes, Function.comp_def]

end

/-- A class-like that refers to another in one of its lists, in any of the spellings, depends on the
full name of that one. A registry that holds both has an edge from the one to the other. -/
theorem dependency_of_spells (source : String) (given : Option String) (imports : List Import)
    (kind : ClassKind) (p : Placed) (n : Tree) (space : Option String) (name : String)
    (hn : n ∈ listedNodes kind p.tree) (hplain : '\\' ∉ name.toList)
    (hfree : isReservedClass name = false)
    (hspells : Spells (start given).space imports space name (n.text source)) :
    let scope := (start given).after imports
    let fullName := inNamespace (space.getD "") name
    globally (scope.resolveClass (n.text source)) = fullName ∧
      ∃ head body, classLikeOf source scope kind p = .classLike head body ∧
        (∀ here, (Descriptor.ofClassLike here ⟨head, body⟩).dependencies =
          (listedNodes kind p.tree).map fun m => globally (scope.resolveClass (m.text source))) ∧
        ∀ here (c : ClassLike), c.head.name = some name →
          let a := Descriptor.ofClassLike here ⟨head, body⟩
          let b := Descriptor.ofClassLike (space.getD "") c
          b.fullName = fullName ∧ fullName ∈ a.dependencies ∧
            ∀ (ds : List Descriptor) (i j : Nat),
              let r := Registry.insertAll {} ds
              r.descriptors[i]? = some a → r.descriptors[j]? = some b → r.graph.Edge i j := by
  intro scope fullName
  have hname : globally (scope.resolveClass (n.text source)) = fullName :=
    hspells.globally_resolveClass hplain hfree
  obtain ⟨head, body, hdecl, hdependencies⟩ := dependencies_classLikeOf source scope kind p
  refine ⟨hname, head, body, hdecl, hdependencies, ?_⟩
  intro here c hc a b
  have hfull : b.fullName = fullName := by
    simp only [b, Descriptor.ofClassLike, hc]
    rfl
  have hmem : fullName ∈ a.dependencies := by
    rw [hdependencies, ← hname]
    exact List.mem_map_of_mem hn
  refine ⟨hfull, hmem, ?_⟩
  intro ds i j r ha hb
  have hr : r.Consistent := Registry.consistent_insertAll ds Registry.consistent_empty
  exact (Registry.edge_graph_iff hr).2 ⟨a, b, ha, hb, by rwa [hfull]⟩

/-- The declaration `class User extends B\Model {}`. -/
def userClass : Tree :=
  .node { kind := "class_declaration", start := 0, stop := 29 }
    [.node { kind := "class", named := false, start := 0, stop := 5 } [],
      .node { kind := "name", field := some "name", start := 6, stop := 10 } [],
      .node { kind := "base_clause", start := 11, stop := 26 }
        [.node { kind := "extends", named := false, start := 11, stop := 18 } [],
          .node { kind := "qualified_name", start := 19, stop := 26 } []],
      .node { kind := "declaration_list", field := some "body", start := 27, stop := 29 } []]

theorem dependency_userClass :
    let source := "class User extends B\\Model \x7b\x7d"
    let imports : List Import := [⟨.classLike, "Old\\B", none⟩, ⟨.classLike, "\\Lib\\Base", some "b"⟩]
    let n : Tree := .node { kind := "qualified_name", start := 19, stop := 26 } []
    n ∈ listedNodes .classType userClass ∧ '\\' ∉ "Model".toList ∧ isReservedClass "Model" = false ∧
      Spells (start (some "App")).space imports (some "Lib\\Base") "Model" (n.text source) ∧
      globally (((start (some "App")).after imports).resolveClass (n.text source)) =
        "\\Lib\\Base\\Model" := by
  intro source imports n
  have hn : n ∈ listedNodes .classType userClass := List.mem_singleton_self _
  have hplain : '\\' ∉ "Model".toList := by decide
  have hfree : isReservedClass "Model" = false := by decide
  have hbound : InForce imports "B" "Lib\\Base" :=
    ⟨[⟨.classLike, "Old\\B", none⟩], ⟨.classLike, "\\Lib\\Base", some "b"⟩, [], rfl, by decide,
      by decide, by simp⟩
  have hspells :
      Spells (start (some "App")).space imports (some "Lib\\Base") "Model" (n.text source) := by
    have htext : n.text source = "B" ++ "\\" ++ "Model" := by decide
    rw [htext]
    exact .importedPart (by decide) (by decide) (by decide) hbound rfl
  have hfull : inNamespace ((some "Lib\\Base").getD "") "Model" = "\\Lib\\Base\\Model" := by decide
  obtain ⟨hname, -⟩ := dependency_of_spells source (some "App") imports .classType ⟨[], userClass⟩ n
    (some "Lib\\Base") "Model" hn hplain hfree hspells
  exact ⟨hn, hplain, hfree, hspells, hname.trans hfull⟩

end Syntax

end Stubsmith
