import Mathlib.Data.List.Forall2
import Stubsmith.Proofs.Imported
import Stubsmith.Proofs.TextEdges

namespace Stubsmith

namespace Syntax

/-- What is left of a text without the backslashes at its ends. -/
structure IsBare (text name : String) : Prop where
  around : ∃ lead tail, text.toList = lead ++ name.toList ++ tail ∧ ∀ c ∈ lead ++ tail, c = '\\'
  first : name.toList.head? ≠ some '\\'
  last : name.toList.getLast? ≠ some '\\'

/-- A name behind what stands before its group, or by itself outside of a group. -/
inductive PutBehind : Option String → String → String → Prop where
  | alone (name : String) : PutBehind none name name
  | grouped {lead name rest : String} {slashes : List Char}
      (split : name.toList = slashes ++ rest.toList) (slashes : ∀ c ∈ slashes, c = '\\')
      (first : rest.toList.head? ≠ some '\\') : PutBehind (some lead) name (lead ++ "\\" ++ rest)

namespace Tree

/-- The nodes in an import declaration that name something. -/
def isImportName (t : Tree) : Bool :=
  t.kind == "name" || t.kind == "qualified_name" || t.kind == "namespace_name"

/-- The nodes of a clause that give an alias, unless they are its target. -/
def isAlias (t : Tree) : Bool :=
  t.isImportName || t.kind == "namespace_aliasing_clause"

/-- The alias that a node gives: its text, or that of the first node in it. -/
def alias? (source : String) (t : Tree) : Option String :=
  if t.isImportName then some (t.text source) else t.namedChildren.head?.map (Tree.text source)

/-- The table that the first marker in a node selects, or the one that counts outside of it. -/
def table (t : Tree) (outside : ImportKind) : ImportKind :=
  match (t.children.map Tree.kind).find? fun kind => kind == "function" || kind == "const" with
  | some kind => if kind == "function" then .function else .constant
  | none => outside

end Tree

/-- What a clause imports. Its first name is the target, and of the nodes besides that can give an
alias the last one does. -/
inductive ClauseGives (source : String) (table : ImportKind) (lead : Option String)
    (clause : Tree) : List Import → Prop where
  | nothing (nameless : ∀ c ∈ clause.namedChildren, ¬c.isImportName) :
      ClauseGives source table lead clause []
  | target {front behind : List Tree} {name : Tree} {target : String}
      (split : clause.namedChildren = front ++ name :: behind)
      (first : ∀ c ∈ front, ¬c.isImportName) (isName : name.isImportName)
      (put : PutBehind lead (name.text source) target) :
      ClauseGives source table lead clause
        [{ kind := table
           target
           aliasName :=
             ((front ++ behind).filter Tree.isAlias).getLast?.bind (Tree.alias? source) }]

/-- What stands before a group, given the nodes before it from the closest on: the closest name,
without the backslashes at its ends. -/
def IsLead (source : String) (before : List Tree) (lead : Option String) : Prop :=
  Option.Rel (fun n name => IsBare (n.text source) name)
    ((before.filter Tree.isNamed).find? Tree.isImportName) lead

/-- What a part of a declaration imports. -/
inductive PartGives (source : String) (table : ImportKind) (p : Placed) : List Import → Prop where
  | clause {imports : List Import} (kind : p.tree.kind = "namespace_use_clause")
      (gives : ClauseGives source table none p.tree imports) : PartGives source table p imports
  | group {lead : Option String} {imports : List (List Import)}
      (kind : p.tree.kind = "namespace_use_group")
      (isLead : IsLead source p.before lead)
      (gives : List.Forall₂ (fun c => ClauseGives source (c.table table) lead c)
        (p.tree.namedChildren.filter fun c =>
          c.kind == "namespace_use_clause" || c.kind == "namespace_use_group_clause") imports) :
      PartGives source table p imports.flatten
  | other (noClause : p.tree.kind ≠ "namespace_use_clause")
      (noGroup : p.tree.kind ≠ "namespace_use_group") : PartGives source table p []

/-- What a declaration imports, part after part. -/
def Declares (source : String) (d : Tree) (imports : List Import) : Prop :=
  ∃ parts, List.Forall₂ (PartGives source (d.table .classLike)) d.namedPlaced parts ∧
    parts.flatten = imports

section

variable {source : String} {t : Tree}

theorem isBare_stripBackslashes (text : String) : IsBare text (Scope.stripBackslashes text) := by
  rw [Scope.stripBackslashes]
  refine ⟨?_, ?_, ?_⟩
  · obtain ⟨lead, tail, htext, hedges⟩ := Text.stripBoth_around (· == '\\') text.toList
    rw [String.toList_ofList]
    exact ⟨lead, tail, htext, fun c hc => eq_of_beq (hedges c hc)⟩
  · rw [String.toList_ofList]
    exact Text.head?_stripBoth_ne _ rfl
  · rw [String.toList_ofList]
    exact Text.getLast?_stripBoth_ne _ rfl

theorem putBehind_dropLeading (lead name : String) :
    PutBehind (some lead) name (lead ++ "\\" ++ Text.dropLeading '\\' name) := by
  have hrest : (Text.dropLeading '\\' name).toList = name.toList.dropWhile (· == '\\') := by
    rw [Text.dropLeading, String.toList_ofList]
  have hsplit : name.toList =
      name.toList.takeWhile (· == '\\') ++ (Text.dropLeading '\\' name).toList := by
    rw [hrest, List.takeWhile_append_dropWhile]
  refine .grouped hsplit ?_ ?_
  · intro c hc
    have hslash := List.mem_takeWhile_imp hc
    exact eq_of_beq hslash
  · rw [hrest]
    exact Text.head?_dropWhile_ne _ rfl

theorem isTargetKind_eq (t : Tree) : isTargetKind t.kind = t.isImportName := by
  simp [isTargetKind, Tree.isImportName, Bool.or_assoc, Bool.beq_eq_decide_eq]

theorem getD_markedKind? (t : Tree) (outside : ImportKind) :
    (markedKind? t).getD outside = t.table outside := by
  rw [markedKind?, Tree.table]
  induction t.children with
  | nil => rfl
  | cons c cs ih =>
    by_cases hfunction : c.kind = "function"
    · simp [hfunction]
    · by_cases hconst : c.kind = "const"
      · simp [hconst]
      · simpa [hfunction, hconst] using ih

/-- What the target and the alias of a clause are after one more of its nodes. -/
def readTarget (source : String) (read : Option String × Option String) (c : Tree) :
    Option String × Option String :=
  if isTargetKind c.kind then
    match read.1 with
    | none => (some (c.text source), read.2)
    | some t => (some t, some (c.text source))
  else if c.kind = "namespace_aliasing_clause" then
    (read.1, c.namedChildren.head?.map (Tree.text source))
  else read

theorem targetAndAlias_eq_foldl (source : String) (t : Tree) :
    targetAndAlias source t = t.namedChildren.foldl (readTarget source) (none, none) :=
  rfl

/-- Where a target is read already, or no name is left, the last node that can give an alias does.
-/
theorem foldl_readTarget {read : Option String × Option String} {ts : List Tree}
    (h : read.1.isSome ∨ ∀ c ∈ ts, ¬c.isImportName) :
    ts.foldl (readTarget source) read =
      (read.1, ((ts.filter Tree.isAlias).getLast?.map (Tree.alias? source)).getD read.2) := by
  induction ts using List.reverseRecOn with
  | nil => rfl
  | append_singleton ts c ih =>
    rw [List.foldl_concat, ih (h.imp_right fun h c hc => h c (by simp [hc])), readTarget,
      isTargetKind_eq, List.filter_append]
    by_cases hname : c.isImportName
    · have hsome : read.1.isSome := h.resolve_right fun h => h c (by simp) hname
      obtain ⟨target, htarget⟩ := Option.isSome_iff_exists.1 hsome
      simp [hname, htarget, Tree.isAlias, Tree.alias?]
    · by_cases halias : c.kind = "namespace_aliasing_clause"
      · simp [hname, halias, Tree.isAlias, Tree.alias?]
      · simp [hname, halias, Tree.isAlias]

theorem clauseGives_clauseImport? (source : String) (table : ImportKind) (lead : Option String)
    (clause : Tree) :
    ClauseGives source table lead clause (clauseImport? source table lead clause).toList := by
  rw [clauseImport?, targetAndAlias_eq_foldl]
  cases hfind : clause.namedChildren.find? Tree.isImportName with
  | none =>
    have hnameless := List.find?_eq_none.1 hfind
    rw [foldl_readTarget (.inr hnameless)]
    exact .nothing hnameless
  | some name =>
    obtain ⟨isName, front, behind, hsplit, hfront⟩ := List.find?_eq_some_iff_append.1 hfind
    have hfirst : ∀ c ∈ front, ¬c.isImportName := by simpa using hfront
    have hread : clause.namedChildren.foldl (readTarget source) (none, none) =
        (some (name.text source),
          ((front ++ behind).filter Tree.isAlias).getLast?.bind (Tree.alias? source)) := by
      rw [hsplit, List.foldl_append, List.foldl_cons, foldl_readTarget (.inr hfirst), readTarget,
        isTargetKind_eq, if_pos isName, foldl_readTarget (.inl rfl), List.filter_append,
        List.getLast?_append]
      cases (behind.filter Tree.isAlias).getLast? <;>
        cases (front.filter Tree.isAlias).getLast? <;> rfl
    rw [hread]
    cases lead with
    | none => exact .target hsplit hfirst isName (.alone _)
    | some lead => exact .target hsplit hfirst isName (putBehind_dropLeading lead _)

theorem isLead_cons_name {before : List Tree} (hnamed : t.isNamed) (hname : t.isImportName) :
    IsLead source (t :: before) (some (Scope.stripBackslashes (t.text source))) := by
  rw [IsLead, List.filter_cons_of_pos hnamed, List.find?_cons_of_pos hname]
  exact .some (isBare_stripBackslashes (t.text source))

theorem isLead_cons {before : List Tree} {lead : Option String} (h : ¬(t.isNamed ∧ t.isImportName))
    (hlead : IsLead source before lead) : IsLead source (t :: before) lead := by
  by_cases hnamed : t.isNamed
  · have hname : ¬t.isImportName := fun hname => h ⟨hnamed, hname⟩
    rw [IsLead, List.filter_cons_of_pos hnamed, List.find?_cons_of_neg hname]
    exact hlead
  · rw [IsLead, List.filter_cons_of_neg hnamed]
    exact hlead

theorem partGives_group (source : String) (table : ImportKind) (p : Placed) {lead : Option String}
    (hkind : p.tree.kind = "namespace_use_group") (hlead : IsLead source p.before lead) :
    PartGives source table p (groupImports source table lead p.tree) := by
  rw [groupImports, List.filterMap_eq_flatMap_toList, List.flatMap_def]
  refine .group hkind hlead ?_
  rw [List.forall₂_map_right_iff, List.forall₂_same]
  intro c _
  rw [getD_markedKind?]
  exact clauseGives_clauseImport? source _ lead c

/-- The parts of a declaration from some node on import what is read off them. -/
theorem exists_partGives (table : ImportKind) (before ts : List Tree) {lead : Option String}
    (hlead : IsLead source before lead) :
    ∃ parts, List.Forall₂ (PartGives source table) (namedFrom before ts) parts ∧
      parts.flatten = partImports source table lead (ts.filter Tree.isNamed) := by
  induction ts generalizing before lead with
  | nil => exact ⟨[], .nil, rfl⟩
  | cons t ts ih =>
    by_cases hnamed : t.isNamed
    · rw [namedFrom_cons_of_isNamed hnamed, List.filter_cons_of_pos hnamed, partImports,
        isTargetKind_eq]
      by_cases hname : t.isImportName
      · obtain ⟨parts, hparts, hflat⟩ := ih (t :: before) (isLead_cons_name hnamed hname)
        have hclause : t.kind ≠ "namespace_use_clause" := by
          intro hclause
          simp [Tree.isImportName, hclause] at hname
        have hgroup : t.kind ≠ "namespace_use_group" := by
          intro hgroup
          simp [Tree.isImportName, hgroup] at hname
        rw [if_neg hclause, if_pos hname, ← hflat]
        exact ⟨[] :: parts, .cons (.other hclause hgroup) hparts, rfl⟩
      obtain ⟨parts, hparts, hflat⟩ := ih (t :: before) (isLead_cons (fun h => hname h.2) hlead)
      rw [if_neg hname, ← hflat]
      by_cases hclause : t.kind = "namespace_use_clause"
      · rw [if_pos hclause]
        exact ⟨_ :: parts,
          .cons (.clause hclause (clauseGives_clauseImport? source table none t)) hparts, rfl⟩
      rw [if_neg hclause]
      by_cases hgroup : t.kind = "namespace_use_group"
      · rw [if_pos hgroup]
        exact ⟨_ :: parts,
          .cons (partGives_group source table ⟨before, t⟩ hgroup hlead) hparts, rfl⟩
      · rw [if_neg hgroup]
        exact ⟨[] :: parts, .cons (.other hclause hgroup) hparts, rfl⟩
    · rw [namedFrom_cons_of_not_isNamed hnamed, List.filter_cons_of_neg hnamed]
      exact ih (t :: before) (isLead_cons (fun h => hnamed h.1) hlead)

/-- A declaration imports what is read off it. -/
theorem declares_declaredImports (source : String) (d : Tree) :
    Declares source d (declaredImports source d) := by
  rw [declaredImports, getD_markedKind?]
  exact exists_partGives _ [] d.children .none

end

end Syntax

end Stubsmith
