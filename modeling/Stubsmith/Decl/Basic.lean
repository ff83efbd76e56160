import Stubsmith.Decl.Modifiers

namespace Stubsmith

/-- A piece of source text that is kept as it stands. -/
abbrev Fragment := String

structure Param where
  attributes : List Fragment := []
  /-- Set only where the parameter declares a property too. -/
  modifiers : Modifiers := {}
  typeHint : Option Fragment := none
  byRef : Bool := false
  variadic : Bool := false
  /-- The variable without its dollar sign. -/
  name : String
  initial : Option Fragment := none
deriving DecidableEq, Repr, Inhabited

/-- A function without its body. -/
structure FunctionHead where
  doc : Option String := none
  attributes : List Fragment := []
  byRef : Bool := false
  name : String
  params : List Param := []
  returnType : Option Fragment := none
deriving DecidableEq, Repr, Inhabited

inductive ClassKind where
  | classType
  | interfaceType
  | traitType
  | enumType
deriving DecidableEq, Repr, Inhabited

/-- A class-like without its members. -/
structure ClassHead where
  kind : ClassKind
  doc : Option String := none
  attributes : List Fragment := []
  modifiers : Modifiers := {}
  /-- Absent for an anonymous class. -/
  name : Option String
  /-- The parent class of a class, the parent interfaces of an interface. -/
  parents : List String := []
  interfaces : List String := []
  /-- The scalar type behind an enum. -/
  backingType : Option Fragment := none
deriving DecidableEq, Repr, Inhabited

/-- Final classes and enums have no subtypes. -/
def ClassHead.isExtensible (c : ClassHead) : Bool :=
  match c.kind with
  | .enumType => false
  | _ => !c.modifiers.isFinal

/-- A method without its body. -/
structure MethodHead where
  doc : Option String := none
  attributes : List Fragment := []
  modifiers : Modifiers := {}
  byRef : Bool := false
  name : String
  params : List Param := []
  returnType : Option Fragment := none
deriving DecidableEq, Repr, Inhabited

structure PropertyItem where
  /-- The property without its dollar sign. -/
  name : String
  initial : Option Fragment := none
deriving DecidableEq, Repr, Inhabited

structure PropertyDecl where
  doc : Option String := none
  attributes : List Fragment := []
  modifiers : Modifiers := {}
  typeHint : Option Fragment := none
  items : List PropertyItem := []
deriving DecidableEq, Repr, Inhabited

structure ConstItem where
  name : String
  value : Fragment
deriving DecidableEq, Repr, Inhabited

structure ClassConstDecl where
  doc : Option String := none
  attributes : List Fragment := []
  modifiers : Modifiers := {}
  typeHint : Option Fragment := none
  items : List ConstItem := []
deriving DecidableEq, Repr, Inhabited

structure TraitUse where
  traits : List String := []
  /-- The block that settles conflicts between the traits, with its braces. -/
  adaptations : Option Fragment := none
deriving DecidableEq, Repr, Inhabited

structure EnumCase where
  doc : Option String := none
  attributes : List Fragment := []
  name : String
  value : Option Fragment := none
deriving DecidableEq, Repr, Inhabited

/-- A constant statement outside of class bodies. -/
structure ConstDecl where
  doc : Option String := none
  items : List ConstItem := []
deriving DecidableEq, Repr, Inhabited

/-- A constant made by a call of `define`. -/
structure DefineCall where
  doc : Option String := none
  /-- Absent where the first argument is no string literal. -/
  name : Option String := none
  args : List Fragment := []
deriving DecidableEq, Repr, Inhabited

inductive AssignTarget where
  /-- A plain variable, without its dollar sign. -/
  | plain (name : String)
  /-- An entry of the table of globals: its key, and the key's literal as written. -/
  | globalsEntry (key : String) (literal : Fragment)
  | place (text : Fragment)
deriving DecidableEq, Repr, Inhabited

structure Assignment where
  doc : Option String := none
  target : AssignTarget
  value : Fragment
deriving DecidableEq, Repr, Inhabited

/-- The declaration trees that extraction reads and writes. Only what extraction reasons about has
structure. -/
inductive Decl where
  /-- A namespace; the global one has no name. -/
  | space (name : Option String) (body : List Decl)
  | function (head : FunctionHead) (body : List Decl)
  | classLike (head : ClassHead) (body : List Decl)
  /-- A method; abstract and interface methods have no body. -/
  | method (head : MethodHead) (body : Option (List Decl))
  | property (p : PropertyDecl)
  | classConst (c : ClassConstDecl)
  | traitUse (u : TraitUse)
  | enumCase (c : EnumCase)
  | const (c : ConstDecl)
  | define (d : DefineCall)
  | assign (a : Assignment)
  /-- Statements behind a condition. -/
  | guarded (condition : Fragment) (body : List Decl)
  | verbatim (text : Fragment) (statement : Bool)
deriving Repr, Inhabited

namespace Decl

/-- Only verbatim text can be something else than a statement. -/
def isStatement : Decl → Bool
  | .verbatim _ statement => statement
  | _ => true

def doc? : Decl → Option String
  | .function h _ => h.doc
  | .classLike h _ => h.doc
  | .method h _ => h.doc
  | .property p => p.doc
  | .classConst c => c.doc
  | .enumCase c => c.doc
  | .const c => c.doc
  | .define d => d.doc
  | .assign a => a.doc
  | .space .. | .traitUse _ | .guarded .. | .verbatim .. => none

/-- The list of declarations inside a declaration, where there is one. -/
def children? : Decl → Option (List Decl)
  | .space _ body | .function _ body | .classLike _ body | .guarded _ body => some body
  | .method _ body => body
  | _ => none

/-- The declaration with `body` in place of its children, if it has a list of them. -/
def withChildren : Decl → List Decl → Decl
  | .space name _, body => .space name body
  | .function h _, body => .function h body
  | .classLike h _, body => .classLike h body
  | .guarded c _, body => .guarded c body
  | .method h (some _), body => .method h (some body)
  | d, _ => d

theorem withChildren_of_children?_eq_none {d : Decl} (h : d.children? = none) (body : List Decl) :
    d.withChildren body = d := by
  cases d with
  | method head inner =>
    cases inner with
    | none => rfl
    | some inner => cases h
  | space | function | classLike | guarded => cases h
  | _ => rfl

/-- What holds of a declaration as soon as it holds of its children holds of all declarations. -/
@[elab_as_elim]
theorem induct_children {P : Decl → Prop}
    (step : ∀ d, (∀ body, d.children? = some body → ∀ c ∈ body, P c) → P d) (d : Decl) : P d := by
  have inside (body : List Decl) (h : ∀ c ∈ body, P c) :
      ∀ ds, some body = some ds → ∀ c ∈ ds, P c := by
    rintro _ ⟨⟩
    exact h
  have leaf (d : Decl) (h : d.children? = none) : P d := by
    refine step d fun body hbody => ?_
    rw [h] at hbody
    cases hbody
  apply @Decl.rec P (fun ds => ∀ c ∈ ds, P c) (fun body => ∀ ds, body = some ds → ∀ c ∈ ds, P c)
  case space | function | classLike | guarded => exact fun _ body h => step _ (inside body h)
  case method => exact fun _ _ h => step _ h
  case nil => exact fun _ h => nomatch h
  case cons => exact fun _ _ hd hds => List.forall_mem_cons.2 ⟨hd, hds⟩
  case none => exact fun _ h => nomatch h
  case some => exact inside
  case verbatim => exact fun _ _ => leaf _ rfl
  all_goals exact fun _ => leaf _ rfl

end Decl

structure ClassLike where
  head : ClassHead
  body : List Decl
deriving Repr, Inhabited

end Stubsmith
