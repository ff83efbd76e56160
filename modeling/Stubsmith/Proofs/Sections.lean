import Stubsmith.Proofs.DeclaredImports
import Stubsmith.Proofs.ProgramShape
import Stubsmith.Proofs.Resolution

namespace Stubsmith

namespace Syntax

/-- The kinds of the nodes that declare nothing. -/
def silentKinds : List String :=
  ["comment", "php_tag", "text", "text_interpolation", "empty_statement",
    "namespace_use_declaration"]

/-- A named node that starts a section, which is what stands between its braces, or up to the next
such node. -/
def Tree.isDefinition (t : Tree) : Bool :=
  t.isNamed && t.kind == "namespace_definition"

/-- The definition whose section goes on behind some nodes, the closest of them first: the last one,
unless its braces end the section. -/
def openDefinition? (before : List Tree) : Option Tree :=
  (before.find? Tree.isDefinition).filter fun d => (d.child? "body").isNone

/-- The nodes of that section in their order. -/
def sectionBehind (before : List Tree) : List Tree :=
  (before.takeWhile (!·.isDefinition)).reverse

/-- A statement with the definition that its section belongs to, if any, and with the nodes before
it in the section. -/
structure Site where
  definition : Option Tree
  earlier : List Tree
  node : Placed

/-- The statements of a block that stands in a section behind some nodes. -/
def blockSites (definition : Option Tree) (earlier : List Tree) (block : Tree) : List Site :=
  block.namedPlaced.map fun p => ⟨definition, earlier ++ p.before.reverse, p⟩

/-- What a node of the top level stands for: the statements between the braces of a definition, or
itself. -/
def topSites (p : Placed) : List Site :=
  if p.tree.kind = "namespace_definition" then
    match p.tree.child? "body" with
    | some body => blockSites (some p.tree) [] body
    | none => []
  else [⟨openDefinition? p.before, sectionBehind p.before, p⟩]

def sites (t : Tree) : List Site :=
  t.namedPlaced.flatMap topSites

/-- The statements of a guard, given its parts from some node on: those of its block, or the one
without braces. -/
def guardSites (definition : Option Tree) (earlier before : List Tree) : List Tree → List Site
  | [] => []
  | .node r cs :: ts =>
    if r.field == some "body" then
      if r.kind = "compound_statement" || r.kind = "colon_block" then
        blockSites definition earlier (.node r cs)
      else [⟨definition, earlier, ⟨before, .node r cs⟩⟩]
    else guardSites definition earlier (.node r cs :: before) ts

def Site.behind (s : Site) : List Site :=
  guardSites s.definition s.earlier [] s.node.tree.children

/-- The statements of a file, behind guards too. -/
inductive Occurs (t : Tree) : Site → Prop where
  | top {s : Site} (h : s ∈ sites t) : Occurs t s
  | behind {s s' : Site} (h : Occurs t s) (guard : s.node.tree.kind = "if_statement")
      (mem : s' ∈ s.behind) : Occurs t s'

/-- The namespace of a section, named by its definition if there is more in the name than
backslashes. -/
inductive GivesSpace (source : String) : Option Tree → Option String → Prop where
  | outside : GivesSpace source none none
  | nameless {d : Tree} (h : ∀ n, d.child? "name" = some n → IsBare (n.text source) "") :
      GivesSpace source (some d) none
  | named {d n : Tree} {name : String} (node : d.child? "name" = some n)
      (bare : IsBare (n.text source) name) (present : name ≠ "") :
      GivesSpace source (some d) (some name)

/-- A scope in the namespace of a statement's section, where the last import under each alias among
those before the statement in the section counts. -/
structure Site.ReadIn (source : String) (s : Site) (scope : Scope) : Prop where
  space : GivesSpace source s.definition scope.space
  imports : ∃ imports, List.Forall₂ (Declares source) (importNodesAmong s.earlier) imports ∧
    ∀ kind name, scope.imported? kind name =
      (imports.flatten.reverse.find? (·.Covers kind name)).map Import.bare

/-- What a statement declares if it is read in a scope. -/
def Site.declaration? (source : String) (s : Site) (scope : Scope) : Option Decl :=
  (statement source scope s.node.before s.node.tree).1

/-- The namespace that a section is read in. -/
def spaceOf (source : String) (definition : Option Tree) : Option String :=
  definition.bind (namespaceName? source)

@[simp]
theorem spaceOf_none (source : String) : spaceOf source none = none :=
  rfl

@[simp]
theorem spaceOf_some (source : String) (d : Tree) :
    spaceOf source (some d) = namespaceName? source d :=
  rfl

/-- The scope in a section behind some nodes of it. -/
def scopeIn (source : String) (definition : Option Tree) (earlier : List Tree) : Scope :=
  (Scope.start (spaceOf source definition)).after (importsOf source (importNodesAmong earlier))

namespace Site

def scope (source : String) (s : Site) : Scope :=
  scopeIn source s.definition s.earlier

/-- What a statement declares in its scope, with its namespace. -/
def declared? (source : String) (s : Site) : Option (Option String × Decl) :=
  (s.declaration? source (s.scope source)).map (spaceOf source s.definition, ·)

end Site

theorem scopeIn_nil (source : String) (definition : Option Tree) :
    scopeIn source definition [] = Scope.start (spaceOf source definition) :=
  rfl

theorem scopeIn_append (source : String) (definition : Option Tree) (earlier more : List Tree) :
    scopeIn source definition (earlier ++ more) =
      (scopeIn source definition earlier).after (importsOf source (importNodesAmong more)) := by
  rw [scopeIn, importNodesAmong_append, importsOf_append, Scope.after_append, ← scopeIn]

theorem stripBackslashes_stripBackslashes (name : String) :
    Scope.stripBackslashes (Scope.stripBackslashes name) = Scope.stripBackslashes name := by
  simp only [Scope.stripBackslashes, String.toList_ofList, Text.stripBoth_stripBoth]

/-- A scope that starts with the name of a definition stands in the namespace of that name. -/
theorem space_start_namespaceName? (source : String) (t : Tree) :
    (Scope.start (namespaceName? source t)).space = namespaceName? source t := by
  rw [Scope.start, namespaceName?]
  cases t.child? "name" with
  | none => rfl
  | some n =>
    by_cases hname : Scope.stripBackslashes (n.text source) = ""
    · simp [Option.filter, hname]
    · simp [Option.filter, hname, stripBackslashes_stripBackslashes]

theorem space_scopeIn (source : String) (definition : Option Tree) (earlier : List Tree) :
    (scopeIn source definition earlier).space = spaceOf source definition := by
  rw [scopeIn, Scope.space_after]
  cases definition with
  | none => rfl
  | some d => exact space_start_namespaceName? source d

theorem givesSpace_spaceOf (source : String) (definition : Option Tree) :
    GivesSpace source definition (spaceOf source definition) := by
  cases definition with
  | none => exact .outside
  | some d =>
    rw [spaceOf, Option.bind_some, namespaceName?]
    cases hnode : d.child? "name" with
    | none => exact .nameless fun n hn => by rw [hnode] at hn; cases hn
    | some n =>
      have hbare := isBare_stripBackslashes (n.text source)
      by_cases hname : Scope.stripBackslashes (n.text source) = ""
      · rw [hname] at hbare
        simp only [Option.map_some, hname, ne_eq, not_true_eq_false, decide_false,
          Option.filter_some_neg]
        refine .nameless fun m hm => ?_
        rw [hnode] at hm
        cases hm
        exact hbare
      · rw [Option.map_some, Option.filter_some_pos (by simpa using hname)]
        exact .named hnode hbare hname

/-- Every statement is read in its namespace and with the imports before it in its section. -/
theorem Site.readIn_scope (source : String) (s : Site) : s.ReadIn source (s.scope source) where
  space := by
    rw [Site.scope, space_scopeIn]
    exact givesSpace_spaceOf source s.definition
  imports := by
    refine ⟨(importNodesAmong s.earlier).map (declaredImports source), ?_, ?_⟩
    · rw [List.forall₂_map_right_iff, List.forall₂_same]
      intro d _
      exact declares_declaredImports source d
    · intro kind name
      rw [← List.flatMap_def]
      exact Scope.imported?_start_after _ _ kind name

theorem blockSites_declaration? (source : String) (definition : Option Tree) (earlier : List Tree)
    (block : Tree) :
    ((blockSites definition earlier block).filterMap fun s =>
        s.declaration? source (s.scope source)) =
      (statements source (scopeIn source definition earlier) [] block.children).1 := by
  have hbase := statements_fst source (scopeIn source definition earlier) [] block.children
  rw [List.reverse_nil, importNodesAmong, importsOf_nil, Scope.after_nil] at hbase
  rw [hbase, blockSites, List.filterMap_map, List.filterMap_eq_flatMap_toList, namedPlaced_eq]
  apply List.flatMap_congr
  intro p _
  rw [← scopeIn_append]
  rfl

theorem blockSites_declared? (source : String) (definition : Option Tree) (earlier : List Tree)
    (block : Tree) :
    (blockSites definition earlier block).filterMap (Site.declared? source) =
      (statements source (scopeIn source definition earlier) [] block.children).1.map
        (spaceOf source definition, ·) := by
  rw [← blockSites_declaration?, List.map_filterMap]
  apply List.filterMap_congr
  intro s hs
  obtain ⟨p, -, rfl⟩ := List.mem_map.1 hs
  rfl

section

variable {source : String} {t : Tree} (before : List Tree)

/-- The scope of the section that goes on behind some nodes. -/
def scopeBehind (source : String) (before : List Tree) : Scope :=
  scopeIn source (openDefinition? before) (sectionBehind before)

theorem openDefinition?_cons (ht : ¬t.isDefinition) :
    openDefinition? (t :: before) = openDefinition? before := by
  rw [openDefinition?, List.find?_cons_of_neg ht, ← openDefinition?]

theorem sectionBehind_cons (ht : ¬t.isDefinition) :
    sectionBehind (t :: before) = sectionBehind before ++ [t] := by
  rw [sectionBehind, List.takeWhile_cons_of_pos (by simpa using ht), List.reverse_cons,
    ← sectionBehind]

theorem scopeBehind_cons (ht : ¬t.isDefinition) :
    scopeBehind source (t :: before) =
      (scopeBehind source before).after
        (importsOf source (if t.isNamed then importNodes t else [])) := by
  rw [scopeBehind, openDefinition?_cons before ht, sectionBehind_cons before ht, scopeIn_append,
    importNodesAmong_singleton, ← scopeBehind]

theorem openDefinition?_cons_definition (ht : t.isDefinition) :
    openDefinition? (t :: before) = if (t.child? "body").isSome then none else some t := by
  rw [openDefinition?, List.find?_cons_of_pos ht, Option.filter_some]
  cases t.child? "body" <;> rfl

theorem scopeBehind_cons_definition (ht : t.isDefinition) :
    scopeBehind source (t :: before) =
      Scope.start (spaceOf source (openDefinition? (t :: before))) := by
  rw [scopeBehind, sectionBehind, List.takeWhile_cons_of_neg (by simpa using ht), List.reverse_nil,
    scopeIn_nil]

end

theorem spread_close (s : OpenSpace) :
    Decl.spread (OpenSpace.close (some s)) = s.body.map (s.name, ·) := by
  rw [OpenSpace.close, Decl.spread_space]
  exact List.append_nil _

section

variable {source : String} {scope : Scope} {current : Option OpenSpace} {p : Placed}
  {ps : List Placed}

theorem topLevel_braces {body : Tree} (hdef : p.tree.kind = "namespace_definition")
    (hbody : p.tree.child? "body" = some body) :
    topLevel source scope current (p :: ps) =
      OpenSpace.close current ++
        .space (namespaceName? source p.tree)
            (statements source (.start (namespaceName? source p.tree)) [] body.children).1 ::
          topLevel source (.start none) none ps := by
  rw [topLevel.eq_def]
  simp only [hdef, hbody, if_true]

theorem topLevel_definition (hdef : p.tree.kind = "namespace_definition")
    (hbody : p.tree.child? "body" = none) :
    topLevel source scope current (p :: ps) =
      OpenSpace.close current ++
        topLevel source (.start (namespaceName? source p.tree))
          (some ⟨namespaceName? source p.tree, []⟩) ps := by
  rw [topLevel.eq_def]
  simp only [hdef, hbody, if_true]

theorem topLevel_statement (hdef : p.tree.kind ≠ "namespace_definition") :
    topLevel source scope current (p :: ps) =
      match (statement source scope p.before p.tree).1, current with
      | none, _ => topLevel source (statement source scope p.before p.tree).2 current ps
      | some d, none => d :: topLevel source (statement source scope p.before p.tree).2 none ps
      | some d, some s =>
        topLevel source (statement source scope p.before p.tree).2
          (some { s with body := s.body ++ [d] }) ps := by
  rw [topLevel.eq_def]
  simp only [hdef, if_false]
  rcases statement source scope p.before p.tree with ⟨_ | d, scope'⟩ <;> cases current <;> rfl

end

section

variable {source : String} {t : Tree} {before : List Tree} {ps : List Placed}
  {rest : List (Option String × Decl)} {current : Option OpenSpace}

/-- A definition declares what stands open and what is between its braces; what follows it starts a
section. -/
theorem spread_topLevel_definition (scope : Scope) (ht : t.isDefinition)
    (hrest : ∀ next : Option OpenSpace,
      spaceOf source (openDefinition? (t :: before)) = next.bind OpenSpace.name →
      Decl.spread (topLevel source (scopeBehind source (t :: before)) next ps) =
        Decl.spread (OpenSpace.close next) ++ rest) :
    Decl.spread (topLevel source scope current (⟨before, t⟩ :: ps)) =
      Decl.spread (OpenSpace.close current) ++
        ((topSites ⟨before, t⟩).filterMap (Site.declared? source) ++ rest) := by
  have hdef : t.kind = "namespace_definition" := by
    rw [Tree.isDefinition, Bool.and_eq_true, beq_iff_eq] at ht
    exact ht.2
  rw [scopeBehind_cons_definition before ht, openDefinition?_cons_definition before ht] at hrest
  rw [topSites, if_pos hdef]
  cases hbody : t.child? "body" with
  | some body =>
    have hlater := hrest none (by simp [hbody])
    simp only [hbody, Option.isSome_some, if_true, spaceOf_none] at hlater
    rw [topLevel_braces hdef hbody, Decl.spread_append, Decl.spread_space, hlater,
      blockSites_declared?, scopeIn_nil]
    rfl
  | none =>
    have hlater := hrest (some ⟨namespaceName? source t, []⟩) (by simp [hbody])
    simp only [hbody, Option.isSome_none, Bool.false_eq_true, if_false, spaceOf_some] at hlater
    rw [topLevel_definition hdef hbody, Decl.spread_append, hlater]
    rfl

/-- A statement joins what stands open, or stands by itself in the global namespace. -/
theorem spread_topLevel_statement (hdef : t.kind ≠ "namespace_definition")
    (hcurrent : spaceOf source (openDefinition? before) = current.bind OpenSpace.name)
    (hrest : ∀ next : Option OpenSpace,
      spaceOf source (openDefinition? before) = next.bind OpenSpace.name →
      Decl.spread
          (topLevel source (statement source (scopeBehind source before) before t).2 next ps) =
        Decl.spread (OpenSpace.close next) ++ rest) :
    Decl.spread (topLevel source (scopeBehind source before) current (⟨before, t⟩ :: ps)) =
      Decl.spread (OpenSpace.close current) ++
        ((topSites ⟨before, t⟩).filterMap (Site.declared? source) ++ rest) := by
  have hdeclared : (topSites ⟨before, t⟩).filterMap (Site.declared? source) =
      ((statement source (scopeBehind source before) before t).1.map
        (spaceOf source (openDefinition? before), ·)).toList := by
    rw [topSites, if_neg hdef, List.filterMap_eq_flatMap_toList, List.flatMap_singleton]
    rfl
  rw [topLevel_statement hdef, hdeclared]
  cases hd : (statement source (scopeBehind source before) before t).1 with
  | none => exact hrest current hcurrent
  | some d =>
    cases current with
    | none =>
      have hfits := fits_statement (scopeBehind source before) before t d hd
      rw [Decl.spread_statement hfits, hrest none hcurrent, hcurrent]
      rfl
    | some s =>
      have hlater := hrest (some { s with body := s.body ++ [d] }) hcurrent
      rw [spread_close, List.map_append] at hlater
      rw [hlater, spread_close, hcurrent, List.append_assoc]
      rfl

end

/-- From some node on the top level declares what stands open behind the nodes before, and then what
the rest of the nodes stand for. -/
theorem spread_topLevel (source : String) (before ts : List Tree) (current : Option OpenSpace)
    (hcurrent : spaceOf source (openDefinition? before) = current.bind OpenSpace.name) :
    Decl.spread (topLevel source (scopeBehind source before) current (namedFrom before ts)) =
      Decl.spread (OpenSpace.close current) ++
        (namedFrom before ts).flatMap fun p =>
          (topSites p).filterMap (Site.declared? source) := by
  -- `hcurrent` is the invariant: what stands open has the name of the last definition in `before`,
  -- and nothing stands open behind braces
  induction ts generalizing before current with
  | nil => simp [namedFrom, placeAll, topLevel]
  | cons t ts ih =>
    have hrest := fun next => ih (t :: before) next
    by_cases ht : t.isDefinition
    · have hnamed : t.isNamed := by
        rw [Tree.isDefinition, Bool.and_eq_true] at ht
        exact ht.1
      rw [namedFrom_cons_of_isNamed hnamed, List.flatMap_cons]
      exact spread_topLevel_definition _ ht hrest
    rw [scopeBehind_cons before ht, openDefinition?_cons before ht] at hrest
    by_cases hnamed : t.isNamed
    · have hdef : t.kind ≠ "namespace_definition" := by
        intro hdef
        exact ht (by simp [Tree.isDefinition, hnamed, hdef])
      rw [if_pos hnamed, ← statement_snd _ before t] at hrest
      rw [namedFrom_cons_of_isNamed hnamed, List.flatMap_cons]
      exact spread_topLevel_statement hdef hcurrent hrest
    · rw [if_neg hnamed, importsOf_nil, Scope.after_nil] at hrest
      rw [namedFrom_cons_of_not_isNamed hnamed]
      exact hrest current hcurrent

theorem spread_program (source : String) (t : Tree) :
    Decl.spread (program source t) = (sites t).filterMap (Site.declared? source) := by
  have htop := spread_topLevel source [] t.children none rfl
  rw [sites, List.filterMap_flatMap]
  exact htop

section

variable {source : String} {t : Tree}

theorem mem_silentKinds_iff {kind : String} :
    kind ∈ silentKinds ↔ isSkippedKind kind ∨ kind = "namespace_use_declaration" := by
  simp [silentKinds, isSkippedKind, or_assoc]

theorem isSome_declaration?_iff (source : String) (s : Site) (scope : Scope) :
    (s.declaration? source scope).isSome ↔ s.node.tree.kind ∉ silentKinds := by
  obtain ⟨definition, earlier, before, r, cs⟩ := s
  have hkind : (Tree.node r cs).kind = r.kind := rfl
  rw [Site.declaration?, statement, mem_silentKinds_iff, hkind]
  by_cases hskip : isSkippedKind r.kind
  · simp [hskip]
  rw [if_neg hskip]
  by_cases huse : r.kind = "namespace_use_declaration"
  · simp [huse]
  rw [if_neg huse]
  by_cases hguard : r.kind = "if_statement"
  · rw [if_pos hguard]
    simp [hskip, huse]
  · rw [if_neg hguard]
    simp [hskip, huse]

/-- Statements declare something unless they are of a silent kind. -/
theorem map_declared? (ss : List Site) :
    (ss.filterMap (Site.declared? source)).map (fun p => (p.1, some p.2)) =
      (ss.filter (·.node.tree.kind ∉ silentKinds)).map
        fun s => ((s.scope source).space, s.declaration? source (s.scope source)) := by
  induction ss with
  | nil => rfl
  | cons s ss ih =>
    have hspace : (s.scope source).space = spaceOf source s.definition := space_scopeIn _ _ _
    have hsome := isSome_declaration?_iff source s (s.scope source)
    cases hd : s.declaration? source (s.scope source) with
    | none =>
      have hdeclared : s.declared? source = none := by rw [Site.declared?, hd]; rfl
      have hsilent : s.node.tree.kind ∈ silentKinds := by simpa [hd] using hsome
      rw [List.filterMap_cons_none hdeclared, List.filter_cons_of_neg (by simpa using hsilent), ih]
    | some d =>
      have hdeclared : s.declared? source = some (spaceOf source s.definition, d) := by
        rw [Site.declared?, hd]
        rfl
      have hloud : s.node.tree.kind ∉ silentKinds := by simpa [hd] using hsome
      rw [List.filterMap_cons_some hdeclared, List.filter_cons_of_pos (by simpa using hloud),
        List.map_cons, List.map_cons, ih, hd, hspace]

theorem guardSites_declaration? (source : String) (definition : Option Tree)
    (earlier before ts : List Tree) :
    ((guardSites definition earlier before ts).filterMap fun s =>
        s.declaration? source (s.scope source)) =
      (guardedBody source (scopeIn source definition earlier) before ts).1 := by
  induction ts generalizing before with
  | nil => simp [guardSites, guardedBody]
  | cons t ts ih =>
    obtain ⟨r, cs⟩ := t
    rw [guardSites, guardedBody]
    by_cases hbody : r.field == some "body"
    · rw [if_pos hbody, if_pos hbody]
      by_cases hblock : (r.kind = "compound_statement" || r.kind = "colon_block") = true
      · rw [if_pos hblock, if_pos hblock]
        exact blockSites_declaration? source definition earlier (.node r cs)
      · rw [if_neg hblock, if_neg hblock, List.filterMap_eq_flatMap_toList, List.flatMap_singleton]
        rfl
    · rw [if_neg hbody, if_neg hbody]
      exact ih (.node r cs :: before)

/-- A guard declares what the statements behind it declare. -/
theorem declaration?_guard {s : Site} (h : s.node.tree.kind = "if_statement") :
    s.declaration? source (s.scope source) =
      some (.guarded (conditionOf source (s.scope source) s.node.tree)
        (s.behind.filterMap fun b => b.declaration? source (b.scope source))) := by
  obtain ⟨definition, earlier, before, r, cs⟩ := s
  have hkind : r.kind = "if_statement" := h
  have hskip : ¬isSkippedKind r.kind := by
    rw [hkind]
    decide
  have huse : r.kind ≠ "namespace_use_declaration" := by
    rw [hkind]
    decide
  have hbehind := guardSites_declaration? source definition earlier [] cs
  rw [Site.declaration?, statement, if_neg hskip, if_neg huse, if_pos hkind, Site.behind]
  exact congrArg (fun body => some (Decl.guarded _ body)) hbehind.symm

end

/-- A file is read statement by statement, each in the namespace of its section and with the imports
before it there, also behind guards. What the file declares are its statements other than those of
silent kinds, in their order and with these namespaces, and it has the shape of a file. -/
theorem program_sections (source : String) (t : Tree) :
    ∃ scope : Site → Scope,
      (∀ s, Occurs t s → s.ReadIn source (scope s)) ∧
      (Decl.spread (program source t)).map (fun p => (p.1, some p.2)) =
        ((sites t).filter (·.node.tree.kind ∉ silentKinds)).map
          (fun s => ((scope s).space, s.declaration? source (scope s))) ∧
      (∀ s, Occurs t s → s.node.tree.kind = "if_statement" →
        s.declaration? source (scope s) =
          some (.guarded (conditionOf source (scope s) s.node.tree)
            (s.behind.filterMap fun b => b.declaration? source (scope b)))) ∧
      Decl.fitsAll .file (program source t) := by
  refine ⟨Site.scope source, fun s _ => s.readIn_scope source, ?_, fun s _ => declaration?_guard,
    fits_program source t⟩
  rw [spread_program]
  exact map_declared? (sites t)

section

def partAt (kind : String) (field : Option String) (start stop : Nat)
    (children : List Tree) : Tree :=
  .node { kind, field, start, stop } children

/-- A file with a section between braces, one behind a definition, and code between the two. -/
def mixedSource : String :=
  "<?php\n" ++
  "namespace A \x7b use B\\\x7bC as D, function f\x7d; " ++
  "class E extends D \x7b\x7d const L = f(); \x7d\n" ++
  "if (K) \x7b use G\\H; class I extends H \x7b\x7d \x7d\n" ++
  "// x\n" ++
  "namespace N\\M;\n" ++
  "class J extends D \x7b\x7d\n"

/-- The named nodes of the file, the marker at the import of a function and the sign in a constant.
-/
def mixedTree : Tree :=
  partAt "program" none 0 168 [
    partAt "php_tag" none 0 5 [],
    partAt "namespace_definition" none 6 85 [
      partAt "namespace_name" (some "name") 16 17 [],
      partAt "compound_statement" (some "body") 18 85 [
        partAt "namespace_use_declaration" none 20 47 [
          partAt "namespace_name" none 24 25 [],
          partAt "namespace_use_group" (some "body") 26 46 [
            partAt "namespace_use_clause" none 27 33 [
              partAt "name" none 27 28 [], partAt "name" (some "alias") 32 33 []],
            partAt "namespace_use_clause" none 35 45 [
              .node { kind := "function", named := false, start := 35, stop := 43 } [],
              partAt "name" none 44 45 []]]],
        partAt "class_declaration" none 48 68 [
          partAt "name" (some "name") 54 55 [],
          partAt "base_clause" none 56 65 [partAt "name" none 64 65 []],
          partAt "declaration_list" (some "body") 66 68 []],
        partAt "const_declaration" none 69 83 [
          partAt "const_element" none 75 82 [
            partAt "name" none 75 76 [],
            .node { kind := "=", named := false, start := 77, stop := 78 } [],
            partAt "function_call_expression" none 79 82 [
              partAt "name" (some "function") 79 80 [],
              partAt "arguments" (some "arguments") 80 82 []]]]]],
    partAt "if_statement" none 86 126 [
      partAt "parenthesized_expression" (some "condition") 89 92 [partAt "name" none 90 91 []],
      partAt "compound_statement" (some "body") 93 126 [
        partAt "namespace_use_declaration" none 95 103 [
          partAt "namespace_use_clause" none 99 102 [partAt "qualified_name" none 99 102 []]],
        partAt "class_declaration" none 104 124 [
          partAt "name" (some "name") 110 111 [],
          partAt "base_clause" none 112 121 [partAt "name" none 120 121 []],
          partAt "declaration_list" (some "body") 122 124 []]]],
    partAt "comment" none 127 131 [],
    partAt "namespace_definition" none 132 146 [partAt "namespace_name" (some "name") 142 145 []],
    partAt "class_declaration" none 147 167 [
      partAt "name" (some "name") 153 154 [],
      partAt "base_clause" none 155 164 [partAt "name" none 163 164 []],
      partAt "declaration_list" (some "body") 165 167 []]]

set_option maxRecDepth 4000 in
/-- The alias of the first section stands for its target there only. -/
theorem program_mixedTree :
    ∃ scope : Site → Scope, (∀ s, Occurs mixedTree s → s.ReadIn mixedSource (scope s)) ∧
      ((sites mixedTree).filter (·.node.tree.kind ∉ silentKinds)).map
          (fun s => ((scope s).space, s.declaration? mixedSource (scope s))) =
        let child (name parent : String) : Decl :=
          .classLike { kind := .classType, name := some name, parents := [parent] } []
        [(some "A", some (child "E" "\\B\\C")),
          (some "A", some (.const { items := [⟨"L", "\\B\\f()"⟩] })),
          (none, some (.guarded "\\K" [child "I" "\\G\\H"])),
          (some "N\\M", some (child "J" "\\N\\M\\D"))] := by
  obtain ⟨scope, hread, hspread, -, -⟩ := program_sections mixedSource mixedTree
  refine ⟨scope, hread, hspread.symm.trans ?_⟩
  -- the names in expressions are sorted, which `rfl` does not unfold by itself
  with_unfolding_all rfl

end

end Syntax

end Stubsmith
