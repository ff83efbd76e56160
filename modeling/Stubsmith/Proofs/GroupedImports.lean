import Stubsmith.Proofs.DeclaredImports
import Stubsmith.Proofs.Resolution

namespace Stubsmith

namespace Scope

open Syntax

variable {imports : List Import}

/-- An import is found under its alias, or one behind it is. -/
theorem imported?_after_called (s : Scope) {i : Import} (hi : i ∈ imports) :
    ((s.after imports).imported? i.kind i.called).isSome := by
  have hfound : (imports.reverse.find? (·.Covers i.kind i.called)).isSome := by
    rw [List.find?_isSome]
    exact ⟨i, List.mem_reverse.2 hi, by simp [Import.Covers]⟩
  obtain ⟨j, hj⟩ := Option.isSome_iff_exists.1 hfound
  rw [imported?_after, hj]
  rfl

/-- Imports leave the tables of other kinds as they are. -/
theorem imported?_after_of_kind (s : Scope) {kind : ImportKind} (h : ∀ i ∈ imports, i.kind ≠ kind)
    (name : String) : (s.after imports).imported? kind name = s.imported? kind name := by
  have hnone : imports.reverse.find? (·.Covers kind name) = none := by
    rw [List.find?_eq_none]
    intro i hi
    simp [Import.Covers, h i (List.mem_reverse.1 hi)]
  rw [imported?_after, hnone]
  rfl

end Scope

namespace Syntax

/-- What a clause says: the table that its marker selects, the target and the alias. -/
structure Clause where
  marker : Option ImportKind := none
  target : String
  aliasName : Option String := none
deriving DecidableEq, Repr

namespace Clause

def toImport (c : Clause) : Import :=
  ⟨c.marker.getD .classLike, c.target, c.aliasName⟩

/-- The import of a class in place of whatever a clause stands for. -/
def toClassImport (c : Clause) : Import :=
  ⟨.classLike, c.target, c.aliasName⟩

/-- The clause of a group by itself: behind what stands before the group, and with the marker of the
declaration if it has none of its own. -/
def alone (declared : Option ImportKind) (lead : String) (c : Clause) : Clause where
  marker := c.marker.or declared
  target := Scope.stripBackslashes lead ++ "\\" ++ Text.dropLeading '\\' c.target
  aliasName := c.aliasName

/-- Whether two clauses say the same, backslashes before the target apart. -/
def SaysSame (c d : Clause) : Prop :=
  c.marker = d.marker ∧ c.aliasName = d.aliasName ∧ c.toImport.bare = d.toImport.bare

end Clause

/-- The table that a node selects if it is a marker. -/
def markerKind? (t : Tree) : Option ImportKind :=
  if t.kind = "function" then some .function
  else if t.kind = "const" then some .constant
  else none

/-- Whether a node is a token that says nothing by itself. -/
def isPunctuation (t : Tree) : Bool :=
  !t.isNamed && ["use", "as", "\\", "\x7b", "\x7d", ",", ";"].contains t.kind

/-- The children of a node, without comments and punctuation. -/
def Tree.words (t : Tree) : List Tree :=
  t.children.filter fun c => c.kind != "comment" && !isPunctuation c

/-- The nodes of a marker. -/
inductive Marks : Option ImportKind → List Tree → Prop where
  | nothing : Marks none []
  | function {t : Tree} (kind : t.kind = "function") (token : t.isNamed = false) :
      Marks (some .function) [t]
  | constant {t : Tree} (kind : t.kind = "const") (token : t.isNamed = false) :
      Marks (some .constant) [t]

/-- The nodes of an alias: a name, or a node around the name. -/
inductive GivesAlias (source : String) : Option String → List Tree → Prop where
  | nothing : GivesAlias source none []
  | name {t : Tree} {aliasName : String} (named : t.isNamed) (kind : isTargetKind t.kind)
      (text : t.text source = aliasName) : GivesAlias source (some aliasName) [t]
  | around {t n : Tree} {aliasName : String} (named : t.isNamed)
      (kind : t.kind = "namespace_aliasing_clause") (first : t.namedChildren.head? = some n)
      (text : n.text source = aliasName) : GivesAlias source (some aliasName) [t]

/-- The node of a clause. -/
structure IsClause (source : String) (c : Clause) (t : Tree) : Prop where
  named : t.isNamed
  kind : t.kind = "namespace_use_clause" ∨ t.kind = "namespace_use_group_clause"
  words : ∃ before target behind, t.words = before ++ target :: behind ∧ Marks c.marker before ∧
    (target.isNamed ∧ isTargetKind target.kind ∧ target.text source = c.target) ∧
    GivesAlias source c.aliasName behind

/-- A declaration of one import, without a group. -/
structure IsSingle (source : String) (c : Clause) (t : Tree) : Prop where
  kind : t.kind = "namespace_use_declaration"
  words : ∃ clause, t.words = [clause] ∧ clause.kind = "namespace_use_clause" ∧
    IsClause source c clause

/-- A declaration with a marker, what stands before the group, and the clauses of the group. -/
structure IsGroup (source : String) (declared : Option ImportKind) (lead : String)
    (clauses : List Clause) (t : Tree) : Prop where
  kind : t.kind = "namespace_use_declaration"
  words : ∃ before front group, t.words = before ++ [front, group] ∧ Marks declared before ∧
    (front.isNamed ∧ isTargetKind front.kind ∧ front.text source = lead) ∧
    (group.isNamed ∧ group.kind = "namespace_use_group" ∧
      List.Forall₂ (IsClause source) clauses group.words)

/-- Declarations of one import, each with its source, that say what the clauses of a group say when
they stand by themselves. -/
def Expands (declared : Option ImportKind) (lead : String) (clauses : List Clause)
    (singles : List (String × Tree)) : Prop :=
  List.Forall₂ (fun c d => ∃ e, (c.alone declared lead).SaysSame e ∧ IsSingle d.1 e d.2)
    clauses singles

/-- The scope after some declarations, each with the source that it stands in. -/
def importEach (declarations : List (String × Tree)) (s : Scope) : Scope :=
  declarations.foldl (fun s d => importAll d.1 d.2 s) s

section

variable {source : String} {t : Tree}

theorem not_isNamed_of_isPunctuation (h : isPunctuation t) : t.isNamed = false := by
  rw [isPunctuation, Bool.and_eq_true] at h
  simpa using h.1

/-- Of the named children comments say nothing, and the other ones are words. -/
theorem filter_namedChildren (t : Tree) :
    t.namedChildren.filter (·.kind != "comment") = t.words.filter Tree.isNamed := by
  rw [Tree.namedChildren, Tree.words, List.filter_filter, List.filter_filter]
  apply List.filter_congr
  intro c _
  cases hpunctuation : isPunctuation c with
  | false => simp [Bool.and_comm]
  | true => simp [not_isNamed_of_isPunctuation hpunctuation]

theorem markerKind?_of_not_word (h : ¬(t.kind != "comment" && !isPunctuation t)) :
    markerKind? t = none := by
  unfold markerKind?
  split
  · next hkind => simp [isPunctuation, hkind] at h
  split
  · next hkind => simp [isPunctuation, hkind] at h
  · rfl

theorem Marks.filter_isNamed {marker : Option ImportKind} {ts : List Tree} (h : Marks marker ts) :
    ts.filter Tree.isNamed = [] := by
  cases h with
  | nothing => rfl
  | function _ token => simp [token]
  | constant _ token => simp [token]

theorem isTargetKind_iff {kind : String} :
    isTargetKind kind ↔ kind = "name" ∨ kind = "qualified_name" ∨ kind = "namespace_name" := by
  simp [isTargetKind]

theorem markerKind?_of_isTargetKind (h : isTargetKind t.kind) : markerKind? t = none := by
  rw [isTargetKind_iff] at h
  rcases h with h | h | h <;> simp [markerKind?, h]

theorem GivesAlias.markerKind? {aliasName : Option String} {ts : List Tree}
    (h : GivesAlias source aliasName ts) : ∀ t ∈ ts, markerKind? t = none := by
  cases h with
  | nothing => simp
  | name _ kind _ => simpa using markerKind?_of_isTargetKind kind
  | around _ kind _ _ => simp [Syntax.markerKind?, kind]

theorem markedKind?_of_words {before rest : List Tree} {marker : Option ImportKind}
    (hwords : t.words = before ++ rest) (hmarks : Marks marker before)
    (hrest : ∀ c ∈ rest, markerKind? c = none) : markedKind? t = marker := by
  have hchildren : t.children.filterMap markerKind? = t.words.filterMap markerKind? := by
    rw [Tree.words, List.filterMap_filter]
    apply List.filterMap_congr
    intro c _
    split
    · rfl
    · next hword => exact markerKind?_of_not_word hword
  have hnone : rest.filterMap markerKind? = [] := List.filterMap_eq_nil_iff.2 hrest
  have hmarked : markedKind? t = (t.children.filterMap markerKind?).head? :=
    List.head?_filterMap.symm
  rw [hmarked, hchildren, hwords, List.filterMap_append, hnone, List.append_nil]
  cases hmarks with
  | nothing => rfl
  | function kind => simp [markerKind?, kind]
  | constant kind => simp [markerKind?, kind]

theorem targetAndAlias_eq (source : String) (t : Tree) :
    targetAndAlias source t =
      (t.words.filter Tree.isNamed).foldl (readTarget source) (none, none) := by
  have hcomment (read : Option String × Option String) (c : Tree) :
      (if c.kind != "comment" then readTarget source read c else read) =
        readTarget source read c := by
    by_cases h : c.kind = "comment" <;> simp [readTarget, h, isTargetKind]
  rw [← filter_namedChildren, List.foldl_filter]
  simp only [hcomment]
  rfl

theorem targetAndAlias_of_isClause {c : Clause} (h : IsClause source c t) :
    targetAndAlias source t = (some c.target, c.aliasName) := by
  obtain ⟨-, -, before, target, behind, words, marks, ⟨targetNamed, targetKind, targetText⟩,
    gives⟩ := h
  have hfirst : readTarget source (none, none) target = (some c.target, none) := by
    rw [← targetText]
    exact if_pos targetKind
  rw [targetAndAlias_eq, words, List.filter_append, marks.filter_isNamed, List.nil_append,
    List.filter_cons_of_pos targetNamed, List.foldl_cons, hfirst]
  generalize c.aliasName = aliasName at gives
  cases gives with
  | nothing => rfl
  | name named kind text =>
    rw [List.filter_cons_of_pos named, ← text]
    exact if_pos kind
  | around named kind first text =>
    have hname : ¬isTargetKind "namespace_aliasing_clause" := by decide
    rw [List.filter_cons_of_pos named, ← text]
    simp [readTarget, kind, hname, first]

theorem markedKind?_of_isClause {c : Clause} (h : IsClause source c t) :
    markedKind? t = c.marker := by
  obtain ⟨-, -, before, target, behind, words, marks, ⟨-, targetKind, -⟩, gives⟩ := h
  exact markedKind?_of_words words marks
    (List.forall_mem_cons.2 ⟨markerKind?_of_isTargetKind targetKind, gives.markerKind?⟩)

theorem partImports_filter (kind : ImportKind) (lead : Option String) (parts : List Tree) :
    partImports source kind lead (parts.filter (·.kind != "comment")) =
      partImports source kind lead parts := by
  induction parts generalizing lead with
  | nil => rfl
  | cons part parts ih =>
    by_cases h : part.kind = "comment"
    · rw [List.filter_cons_of_neg (by simp [h]), ih, partImports]
      simp [h, isTargetKind]
    · rw [List.filter_cons_of_pos (by simp [h]), partImports, partImports]
      simp only [ih]

/-- The imports of a declaration are read off its words. -/
theorem declaredImports_eq (source : String) (t : Tree) :
    declaredImports source t =
      partImports source ((markedKind? t).getD .classLike) none (t.words.filter Tree.isNamed) := by
  rw [declaredImports, ← partImports_filter, filter_namedChildren]

/-- Whether a node is of a kind that clauses have. -/
def isClauseKind (t : Tree) : Bool :=
  t.kind == "namespace_use_clause" || t.kind == "namespace_use_group_clause"

theorem forall_isNamed_and_isClauseKind {clauses : List Clause} {ts : List Tree}
    (h : List.Forall₂ (IsClause source) clauses ts) : ∀ t ∈ ts, t.isNamed ∧ isClauseKind t := by
  induction h with
  | nil => simp
  | cons hc _ ih =>
    exact List.forall_mem_cons.2 ⟨⟨hc.named, by simpa [isClauseKind] using hc.kind⟩, ih⟩

/-- The words of a group are its clauses. -/
theorem filter_isClauseKind {clauses : List Clause}
    (h : List.Forall₂ (IsClause source) clauses t.words) :
    t.namedChildren.filter isClauseKind = t.words := by
  have hcomment : ∀ c : Tree, isClauseKind c = (isClauseKind c && c.kind != "comment") := by
    intro c
    by_cases hkind : c.kind = "comment" <;> simp [isClauseKind, hkind]
  calc
    t.namedChildren.filter isClauseKind =
        (t.namedChildren.filter (·.kind != "comment")).filter isClauseKind := by
      rw [List.filter_filter]
      exact List.filter_congr fun c _ => hcomment c
    _ = t.words := by
      rw [filter_namedChildren, List.filter_filter, List.filter_eq_self]
      intro w hw
      simp [forall_isNamed_and_isClauseKind h w hw]

theorem clauseImport?_of_isClause {c : Clause} (h : IsClause source c t) (kind : ImportKind) :
    clauseImport? source kind none t = some ⟨kind, c.target, c.aliasName⟩ := by
  rw [clauseImport?, targetAndAlias_of_isClause h]
  rfl

theorem clauseImport?_alone {c : Clause} (h : IsClause source c t) (declared : Option ImportKind)
    (lead : String) :
    clauseImport? source ((markedKind? t).getD (declared.getD .classLike))
        (some (Scope.stripBackslashes lead)) t = some (c.alone declared lead).toImport := by
  have hkind : (c.marker.or declared).getD .classLike = c.marker.getD (declared.getD .classLike) := by
    cases c.marker <;> rfl
  rw [clauseImport?, targetAndAlias_of_isClause h, markedKind?_of_isClause h, ← hkind]
  rfl

theorem groupImports_eq {declared : Option ImportKind} {lead : String} {clauses : List Clause}
    (h : List.Forall₂ (IsClause source) clauses t.words) :
    groupImports source (declared.getD .classLike) (some (Scope.stripBackslashes lead)) t =
      clauses.map fun c => (c.alone declared lead).toImport := by
  have hclauses : (t.namedChildren.filter fun c => c.kind == "namespace_use_clause" ||
      c.kind == "namespace_use_group_clause") = t.words := filter_isClauseKind h
  rw [groupImports, hclauses]
  generalize t.words = ts at h
  induction h with
  | nil => rfl
  | cons hc _ ih =>
    rw [List.filterMap_cons, ih]
    simp only [clauseImport?_alone hc]
    rfl

theorem declaredImports_of_isGroup {declared : Option ImportKind} {lead : String}
    {clauses : List Clause} (h : IsGroup source declared lead clauses t) :
    declaredImports source t = clauses.map fun c => (c.alone declared lead).toImport := by
  obtain ⟨-, before, front, group, words, marks, ⟨frontNamed, frontKind, rfl⟩, groupNamed, groupKind,
    hclauses⟩ := h
  have hgroup : markerKind? group = none := by simp [Syntax.markerKind?, groupKind]
  have hmarked : markedKind? t = declared :=
    markedKind?_of_words words marks (by simp [markerKind?_of_isTargetKind frontKind, hgroup])
  have hfront : front.kind ≠ "namespace_use_clause" := by
    intro hkind
    rw [hkind] at frontKind
    revert frontKind
    decide
  have hnames : t.words.filter Tree.isNamed = [front, group] := by
    rw [words, List.filter_append, marks.filter_isNamed]
    simp [frontNamed, groupNamed]
  have htarget : ¬isTargetKind "namespace_use_group" := by decide
  rw [declaredImports_eq, hmarked, hnames, partImports, if_neg hfront, if_pos frontKind, partImports,
    groupKind, if_neg (by decide), if_neg htarget, if_pos rfl, groupImports_eq hclauses, partImports,
    List.append_nil]

theorem declaredImports_of_isSingle {c : Clause} (h : IsSingle source c t) :
    declaredImports source t = [c.toClassImport] := by
  obtain ⟨-, clause, words, kind, hclause⟩ := h
  have hmarked : markedKind? t = none :=
    markedKind?_of_words words .nothing (by simp [Syntax.markerKind?, kind])
  rw [declaredImports_eq, hmarked, words, List.filter_cons_of_pos hclause.named,
    partImports, if_pos kind, clauseImport?_of_isClause hclause]
  rfl

theorem addTo_congr {i j : Import} (hkind : i.kind = j.kind) (haliases : i.aliasName = j.aliasName)
    (hbare : i.bare = j.bare) (s : Scope) : i.addTo s = j.addTo s := by
  have hkey : i.kind.key i.called = j.kind.key j.called := by
    rw [Import.called, Import.called, hkind, haliases, hbare]
  exact congrArg₂ (fun key bare => ({ s with targets := (key, bare) :: s.targets } : Scope))
    hkey hbare

theorem importAll_of_isGroup {declared : Option ImportKind} {lead : String} {clauses : List Clause}
    (h : IsGroup source declared lead clauses t) (s : Scope) :
    importAll source t s = s.after (clauses.map fun c => (c.alone declared lead).toImport) := by
  rw [importAll_eq, declaredImports_of_isGroup h]

/-- Declarations of one import each import a class each, whatever their markers are. -/
theorem importEach_of_expands {declared : Option ImportKind} {lead : String} {clauses : List Clause}
    {singles : List (String × Tree)} (h : Expands declared lead clauses singles) (s : Scope) :
    importEach singles s =
      s.after (clauses.map fun c => (c.alone declared lead).toClassImport) := by
  induction h generalizing s with
  | nil => rfl
  | @cons c d _ _ hd _ ih =>
    obtain ⟨e, ⟨-, haliases, hbare⟩, hd⟩ := hd
    let i := (c.alone declared lead).toClassImport
    have hsame : e.toClassImport.addTo s = i.addTo s :=
      addTo_congr (i := e.toClassImport) (j := i) rfl haliases.symm hbare.symm s
    have hfirst : importAll d.1 d.2 s = i.addTo s := by
      rw [importAll_eq, declaredImports_of_isSingle hd, ← hsame]
      rfl
    rw [importEach, List.foldl_cons, hfirst]
    exact ih _

end

/-- A declaration with a group imports what its clauses import as declarations of their own, in
their order, and of two imports under one alias the later one counts. Written as such declarations
all of them import classes, so that both come to the same if that is what the clauses import; and
where no functions and constants are imported yet only if it is. -/
theorem importAll_group (source : String) (declared : Option ImportKind) (lead : String)
    (clauses : List Clause) (t : Tree) (singles : List (String × Tree))
    (hgroup : IsGroup source declared lead clauses t)
    (hsingles : Expands declared lead clauses singles) :
    let imports := clauses.map fun c => (c.alone declared lead).toImport
    (∀ s kind name, (importAll source t s).imported? kind name =
        ((imports.reverse.find? (·.Covers kind name)).map Import.bare).or (s.imported? kind name)) ∧
      ((∀ i ∈ imports, i.kind = .classLike) → ∀ s, importEach singles s = importAll source t s) ∧
      ∀ s : Scope, (∀ kind name, kind ≠ .classLike → s.imported? kind name = none) →
        (∀ kind name, (importEach singles s).imported? kind name =
          (importAll source t s).imported? kind name) → ∀ i ∈ imports, i.kind = .classLike := by
  intro imports
  refine ⟨?_, ?_, ?_⟩
  · intro s kind name
    rw [importAll_of_isGroup hgroup, Scope.imported?_after]
  · intro hclasses s
    have hsame : (clauses.map fun c => (c.alone declared lead).toClassImport) = imports := by
      apply List.map_congr_left
      intro c hc
      have hclass := hclasses _ (List.mem_map_of_mem hc)
      rw [Clause.toClassImport, ← hclass]
      rfl
    rw [importEach_of_expands hsingles, hsame, importAll_of_isGroup hgroup]
  · intro s hempty hsame i hi
    by_contra hkind
    have hfound := Scope.imported?_after_called s hi
    rw [← importAll_of_isGroup hgroup, ← hsame, importEach_of_expands hsingles,
      Scope.imported?_after_of_kind, hempty _ _ hkind] at hfound
    · exact absurd hfound (by decide)
    · intro j hj
      obtain ⟨c, -, rfl⟩ := List.mem_map.1 hj
      exact Ne.symm hkind

section

def nameAt (kind : String) (start stop : Nat) : Tree :=
  .node { kind, start, stop } []

def tokenAt (kind : String) (start stop : Nat) : Tree :=
  .node { kind, named := false, start, stop } []

def clauseAt (start stop : Nat) (children : List Tree) : Tree :=
  .node { kind := "namespace_use_clause", start, stop } children

def useAt (stop : Nat) (children : List Tree) : Tree :=
  .node { kind := "namespace_use_declaration", start := 0, stop }
    (tokenAt "use" 0 3 :: children ++ [tokenAt ";" (stop - 1) stop])

def groupAt (start stop : Nat) (children : List Tree) : Tree :=
  .node { kind := "namespace_use_group", start, stop }
    (tokenAt "\x7b" start (start + 1) :: children ++ [tokenAt "\x7d" (stop - 1) stop])

/-- The declaration `use A\{B as C, D\C};`. -/
def classGroup : Tree :=
  useAt 20 [nameAt "namespace_name" 4 5, tokenAt "\\" 5 6,
    groupAt 6 19
      [clauseAt 7 13 [nameAt "name" 7 8, tokenAt "as" 9 11, nameAt "name" 12 13], tokenAt "," 13 14,
        clauseAt 15 18 [nameAt "qualified_name" 15 18]]]

/-- The declarations `use A\B as C;` and `use \A\D\C;`. -/
def classSingles : List (String × Tree) :=
  [("use A\\B as C;", useAt 13
      [clauseAt 4 12 [nameAt "qualified_name" 4 7, tokenAt "as" 8 10, nameAt "name" 11 12]]),
    ("use \\A\\D\\C;", useAt 11 [clauseAt 4 10 [nameAt "qualified_name" 4 10]])]

/-- Of two classes under one alias the second one counts, in a group and in its expansion. -/
theorem importAll_classGroup :
    let source := "use A\\\x7bB as C, D\\C\x7d;"
    let clauses : List Clause := [⟨none, "B", some "C"⟩, ⟨none, "D\\C", none⟩]
    IsGroup source none "A" clauses classGroup ∧ Expands none "A" clauses classSingles ∧
      importEach classSingles {} = importAll source classGroup {} ∧
      (importAll source classGroup {}).imported? .classLike "c" = some "A\\D\\C" := by
  intro source clauses
  have hgroup : IsGroup source none "A" clauses classGroup := by
    refine ⟨rfl, [], _, _, rfl, .nothing, ⟨rfl, rfl, by decide⟩, rfl, rfl, .cons ?_ (.cons ?_ .nil)⟩
    · exact ⟨rfl, .inl rfl, [], _, _, rfl, .nothing, ⟨rfl, rfl, by decide⟩, .name rfl rfl (by decide)⟩
    · exact ⟨rfl, .inl rfl, [], _, _, rfl, .nothing, ⟨rfl, rfl, by decide⟩, .nothing⟩
  have hsingles : Expands none "A" clauses classSingles := by
    refine .cons ⟨⟨none, "A\\B", some "C"⟩, ⟨rfl, rfl, by decide⟩, rfl, _, rfl, rfl, ?_⟩
      (.cons ⟨⟨none, "\\A\\D\\C", none⟩, ⟨rfl, rfl, by decide⟩, rfl, _, rfl, rfl, ?_⟩ .nil)
    · exact ⟨rfl, .inl rfl, [], _, _, rfl, .nothing, ⟨rfl, rfl, by decide⟩, .name rfl rfl (by decide)⟩
    · exact ⟨rfl, .inl rfl, [], _, _, rfl, .nothing, ⟨rfl, rfl, by decide⟩, .nothing⟩
  obtain ⟨hlook, hclasses, -⟩ := importAll_group source none "A" clauses classGroup classSingles
    hgroup hsingles
  refine ⟨hgroup, hsingles, hclasses (by decide) {}, ?_⟩
  rw [hlook]
  decide

/-- The declaration `use function A\{b};`. -/
def functionGroup : Tree :=
  useAt 19 [tokenAt "function" 4 12, nameAt "namespace_name" 13 14, tokenAt "\\" 14 15,
    groupAt 15 18 [clauseAt 16 17 [nameAt "name" 16 17]]]

/-- The declaration `use function A\b;`, whose marker stands in the clause. -/
def functionSingle : Tree :=
  useAt 17 [clauseAt 4 16 [tokenAt "function" 4 12, nameAt "qualified_name" 13 16]]

/-- A function is imported by a group, but not by a declaration of its own. -/
theorem importAll_functionGroup :
    let source := "use function A\\\x7bb\x7d;"
    let clauses : List Clause := [⟨none, "b", none⟩]
    let singles := [("use function A\\b;", functionSingle)]
    IsGroup source (some .function) "A" clauses functionGroup ∧
      Expands (some .function) "A" clauses singles ∧
      (importAll source functionGroup {}).imported? .function "b" = some "A\\b" ∧
      (importEach singles {}).imported? .function "b" = none ∧
      (importEach singles {}).imported? .classLike "b" = some "A\\b" := by
  intro source clauses singles
  refine ⟨?_, ?_, by decide, by decide, by decide⟩
  · refine ⟨rfl, [_], _, _, rfl, .function rfl rfl, ⟨rfl, rfl, by decide⟩, rfl, rfl, .cons ?_ .nil⟩
    exact ⟨rfl, .inl rfl, [], _, _, rfl, .nothing, ⟨rfl, rfl, by decide⟩, .nothing⟩
  · refine .cons ⟨⟨some .function, "A\\b", none⟩, ⟨rfl, rfl, by decide⟩, rfl, _, rfl, rfl, ?_⟩ .nil
    exact ⟨rfl, .inl rfl, [_], _, _, rfl, .function rfl rfl, ⟨rfl, rfl, by decide⟩, .nothing⟩

end

end Syntax

end Stubsmith
