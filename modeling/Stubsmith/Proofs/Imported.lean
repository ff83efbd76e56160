import Stubsmith.Syntax.Program

namespace Stubsmith

def Scope.after (s : Scope) (imports : List Syntax.Import) : Scope :=
  imports.foldl (fun s i => i.addTo s) s

namespace Syntax

mutual

/-- The import declarations of a statement, those behind a guard included. -/
def importNodes : Tree → List Tree
  | .node r cs =>
    if r.kind = "namespace_use_declaration" then [.node r cs]
    else if r.kind = "if_statement" then importNodesBehind cs
    else []

def importNodesAmong : List Tree → List Tree
  | [] => []
  | t :: ts => (if t.isNamed then importNodes t else []) ++ importNodesAmong ts

/-- The import declarations in the body of a guard, which is a block or one statement without
braces. -/
def importNodesBehind : List Tree → List Tree
  | [] => []
  | .node r cs :: ts =>
    if r.field == some "body" then
      if r.kind = "compound_statement" || r.kind = "colon_block" then importNodesAmong cs
      else importNodes (.node r cs)
    else importNodesBehind ts

end

/-- The imports of some declarations, one declaration after the other. -/
def importsOf (source : String) (ds : List Tree) : List Import :=
  ds.flatMap (declaredImports source)

/-- The named ones of some nodes, with what stands before each. -/
def namedFrom (before ts : List Tree) : List Placed :=
  (placeAll before ts).filter (·.tree.isNamed)

end Syntax

namespace Scope

variable {s : Scope} {imports more : List Syntax.Import}

@[simp]
theorem after_nil (s : Scope) : s.after [] = s :=
  rfl

theorem after_append : s.after (imports ++ more) = (s.after imports).after more := by
  simp [after]

@[simp]
theorem space_after : (s.after imports).space = s.space := by
  induction imports generalizing s with
  | nil => rfl
  | cons i imports ih => exact ih

end Scope

namespace Syntax

variable {source : String} {t : Tree} {before : List Tree}

@[simp]
theorem importsOf_nil : importsOf source [] = [] :=
  rfl

theorem importsOf_append (ds es : List Tree) :
    importsOf source (ds ++ es) = importsOf source ds ++ importsOf source es :=
  List.flatMap_append

theorem importNodesAmong_append (ts us : List Tree) :
    importNodesAmong (ts ++ us) = importNodesAmong ts ++ importNodesAmong us := by
  induction ts with
  | nil => simp [importNodesAmong]
  | cons t ts ih => simp [importNodesAmong, ih]

theorem importNodesAmong_singleton (t : Tree) :
    importNodesAmong [t] = if t.isNamed then importNodes t else [] := by
  rw [importNodesAmong, importNodesAmong, List.append_nil]

theorem importsOf_importNodesAmong_reverse_cons (before : List Tree) (t : Tree) :
    importsOf source (importNodesAmong (t :: before).reverse) =
      importsOf source (importNodesAmong before.reverse) ++
        importsOf source (if t.isNamed then importNodes t else []) := by
  rw [List.reverse_cons, importNodesAmong_append, importNodesAmong_singleton, importsOf_append]

theorem importAll_eq (source : String) (t : Tree) (s : Scope) :
    importAll source t s = s.after (declaredImports source t) :=
  rfl

theorem ne_of_isSkippedKind {kind : String} (h : isSkippedKind kind) :
    kind ≠ "namespace_use_declaration" ∧ kind ≠ "if_statement" := by
  constructor
  · rintro rfl
    revert h
    decide
  · rintro rfl
    revert h
    decide

mutual

theorem statement_snd (scope : Scope) (before : List Tree) :
    ∀ t, (statement source scope before t).2 = scope.after (importsOf source (importNodes t))
  | .node r cs => by
    rw [statement, importNodes]
    by_cases hskip : isSkippedKind r.kind
    · obtain ⟨huse, hguard⟩ := ne_of_isSkippedKind hskip
      rw [if_pos hskip, if_neg huse, if_neg hguard]
      rfl
    rw [if_neg hskip]
    by_cases huse : r.kind = "namespace_use_declaration"
    · rw [if_pos huse, if_pos huse, importAll_eq, importsOf, List.flatMap_singleton]
    rw [if_neg huse, if_neg huse]
    by_cases hguard : r.kind = "if_statement"
    · rw [if_pos hguard, if_pos hguard]
      exact guardedBody_snd scope [] cs
    · rw [if_neg hguard, if_neg hguard]
      rfl

theorem statements_snd (scope : Scope) (before : List Tree) :
    ∀ ts, (statements source scope before ts).2 =
      scope.after (importsOf source (importNodesAmong ts))
  | [] => by rw [statements, importNodesAmong, importsOf_nil, Scope.after_nil]
  | t :: ts => by
    rw [statements, importNodesAmong, importsOf_append]
    by_cases ht : t.isNamed
    · rw [if_pos ht, if_pos ht, Scope.after_append, ← statement_snd scope before t]
      exact statements_snd _ (t :: before) ts
    · rw [if_neg ht, if_neg ht]
      exact statements_snd scope (t :: before) ts

theorem guardedBody_snd (scope : Scope) (before : List Tree) :
    ∀ ts, (guardedBody source scope before ts).2 =
      scope.after (importsOf source (importNodesBehind ts))
  | [] => by rw [guardedBody, importNodesBehind, importsOf_nil, Scope.after_nil]
  | .node r cs :: ts => by
    rw [guardedBody, importNodesBehind]
    by_cases hbody : r.field == some "body"
    · rw [if_pos hbody, if_pos hbody]
      by_cases hblock : (r.kind = "compound_statement" || r.kind = "colon_block") = true
      · rw [if_pos hblock, if_pos hblock]
        exact statements_snd scope [] cs
      · rw [if_neg hblock, if_neg hblock]
        exact statement_snd scope before (.node r cs)
    · rw [if_neg hbody, if_neg hbody]
      exact guardedBody_snd scope (.node r cs :: before) ts

end

theorem namedFrom_cons_of_isNamed {ts : List Tree} (ht : t.isNamed) :
    namedFrom before (t :: ts) = ⟨before, t⟩ :: namedFrom (t :: before) ts :=
  List.filter_cons_of_pos (by exact ht)

theorem namedFrom_cons_of_not_isNamed {ts : List Tree} (ht : ¬t.isNamed) :
    namedFrom before (t :: ts) = namedFrom (t :: before) ts :=
  List.filter_cons_of_neg (by exact ht)

theorem namedPlaced_eq (t : Tree) : t.namedPlaced = namedFrom [] t.children :=
  rfl

/-- The declarations of a list of nodes are those of its statements, each read in the scope after
the imports before it. -/
theorem statements_fst (source : String) (base : Scope) (before ts : List Tree) :
    (statements source (base.after (importsOf source (importNodesAmong before.reverse))) before
        ts).1 =
      (namedFrom before ts).flatMap fun p =>
        (statement source (base.after (importsOf source (importNodesAmong p.before.reverse)))
          p.before p.tree).1.toList := by
  -- the scope is that after all of `before`, which the node at hand joins in each step
  induction ts generalizing before with
  | nil => simp [statements, namedFrom, placeAll]
  | cons t ts ih =>
    have hrest := ih (t :: before)
    rw [importsOf_importNodesAmong_reverse_cons] at hrest
    rw [statements]
    by_cases ht : t.isNamed
    · rw [if_pos ht, Scope.after_append, ← statement_snd _ before t] at hrest
      rw [if_pos ht, namedFrom_cons_of_isNamed ht, List.flatMap_cons, ← hrest]
    · rw [if_neg ht, importsOf_nil, List.append_nil] at hrest
      rw [if_neg ht, namedFrom_cons_of_not_isNamed ht, ← hrest]

end Syntax

end Stubsmith
