import Stubsmith.Decl.Basic

namespace Stubsmith

/-- What happens to the children of a declaration that was entered. -/
inductive Descent where
  /-- They are walked. -/
  | into
  /-- They stay as they are. -/
  | skip
  /-- They are dropped. -/
  | drop
deriving DecidableEq, Repr, Inhabited

/-- A visitor that carries a state. On entering it may change a declaration, its children apart. -/
structure Visitor (σ : Type) where
  before : σ → σ := id
  enter : Decl → σ → (Decl × Descent) × σ
  leave : Decl → σ → List Decl × σ
  after : σ → σ := id

namespace Visitor

variable {σ : Type} (v : Visitor σ)

/-- Enters and leaves a declaration, with `inside` in between where its children are walked. -/
def around (d : Decl) (inside : σ → List Decl × σ) (s : σ) : List Decl × σ :=
  match v.enter d s with
  | ((d', .into), s) =>
    let (body, s) := inside s
    v.leave (d'.withChildren body) s
  | ((d', .skip), s) => v.leave d' s
  | ((d', .drop), s) => v.leave (d'.withChildren []) s

mutual

def walk : Decl → σ → List Decl × σ
  | .space name body, s => v.around (.space name body) (walkAll body) s
  | .function h body, s => v.around (.function h body) (walkAll body) s
  | .classLike h body, s => v.around (.classLike h body) (walkAll body) s
  | .method h (some body), s => v.around (.method h (some body)) (walkAll body) s
  | .guarded c body, s => v.around (.guarded c body) (walkAll body) s
  | .method h none, s => v.around (.method h none) ([], ·) s
  | .property p, s => v.around (.property p) ([], ·) s
  | .classConst c, s => v.around (.classConst c) ([], ·) s
  | .traitUse u, s => v.around (.traitUse u) ([], ·) s
  | .enumCase c, s => v.around (.enumCase c) ([], ·) s
  | .const c, s => v.around (.const c) ([], ·) s
  | .define d, s => v.around (.define d) ([], ·) s
  | .assign a, s => v.around (.assign a) ([], ·) s
  | .verbatim text statement, s => v.around (.verbatim text statement) ([], ·) s

def walkAll : List Decl → σ → List Decl × σ
  | [], s => ([], s)
  | d :: ds, s =>
    let (here, s) := walk d s
    let (later, s) := walkAll ds s
    (here ++ later, s)

end

/-- A walk over a list of declarations from its beginning to its end, and what is left of the list.
-/
def traverse (ds : List Decl) (s : σ) : List Decl × σ :=
  let (left, s) := v.walkAll ds (v.before s)
  (left, v.after s)

theorem traverse_eq (ds : List Decl) (s : σ) :
    v.traverse ds s = ((v.walkAll ds (v.before s)).1, v.after (v.walkAll ds (v.before s)).2) :=
  rfl

theorem walkAll_append (ds es : List Decl) (s : σ) :
    v.walkAll (ds ++ es) s =
      ((v.walkAll ds s).1 ++ (v.walkAll es (v.walkAll ds s).2).1,
        (v.walkAll es (v.walkAll ds s).2).2) := by
  induction ds generalizing s with
  | nil => rfl
  | cons d ds ih => simp [Visitor.walkAll, ih]

/-- Every declaration is entered and left, with a walk over its children in between if it has any.
-/
theorem walk_eq_around (d : Decl) (s : σ) :
    v.walk d s =
      v.around d (match d.children? with
        | some body => v.walkAll body
        | none => ([], ·)) s := by
  cases d with
  | method h body => cases body <;> rfl
  | _ => rfl

end Visitor

end Stubsmith
