import Stubsmith.Extract.State
import Stubsmith.Symbol.Known

namespace Stubsmith

/-- What a run is asked for. -/
structure Request where
  selection : Selection := .standard
  options : Options := {}
  environment : Environment := .empty
deriving Inhabited

namespace Request

variable (r : Request)

/-- Counts a symbol and keeps it if it is the first of its name and does not exist already. -/
def accept (kind : SymbolKind) (name : String) (t : Tally) : Bool × Tally :=
  match t.count kind name with
  | (false, t) => (false, t)
  | (true, t) => if r.environment kind name then (false, t) else (true, t.retain kind name)

/-- The items of a constant statement that are kept. -/
def acceptItems (space : String) : List ConstItem → Tally → List ConstItem × Tally
  | [], t => ([], t)
  | item :: items, t =>
    let (kept, t) := r.accept .constants (QualifiedName.inNamespace space item.name) t
    let (later, t) := acceptItems space items t
    (if kept then item :: later else later, t)

/-- Counts a global and keeps it if globals with, or without, a doc comment are selected. Neither
the environment nor an earlier assignment keeps a global out. -/
def acceptGlobal (documented : Bool) (name : String) (t : Tally) : Bool × Tally :=
  let (_, t) := t.count .globals name
  if r.selection.hasGlobal documented then (true, t.retain .globals name) else (false, t)

/-- What is kept of a declaration directly in a namespace, which is empty for the top level. Inside
a guard there are no globals. -/
def keep? (space : String) (inGuard : Bool) (d : Decl) (t : Tally) : Option Decl × Tally :=
  match d with
  | .function h _ =>
    if r.selection.functions then
      let (kept, t) := r.accept .functions (QualifiedName.inNamespace space h.name) t
      (if kept then some d else none, t)
    else (none, t)
  | .classLike h _ =>
    match h.name with
    | some name =>
      if r.selection.hasClassKind h.kind then
        let (kept, t) := r.accept h.kind.symbolKind (QualifiedName.inNamespace space name) t
        (if kept then some d else none, t)
      else (none, t)
    | none => (none, t)
  | .const c =>
    if r.selection.constants then
      let (items, t) := r.acceptItems space c.items t
      (if items.isEmpty then none else some (.const { c with items := items }), t)
    else (none, t)
  | .define c =>
    match c.name with
    | some name =>
      if r.selection.constants then
        let (kept, t) := r.accept .constants (QualifiedName.globally name) t
        (if kept then some d else none, t)
      else (none, t)
    | none => (none, t)
  | .assign a =>
    match a.target with
    | .plain name =>
      if r.selection.hasGlobals && !inGuard then
        let (kept, t) := r.acceptGlobal a.doc.isSome name t
        (if kept then some d else none, t)
      else (none, t)
    | _ => (none, t)
  | _ => (none, t)

/-- The modifiers that decide on the access to a member, for members that have any. -/
def accessModifiers? : Decl → Option Modifiers
  | .method h _ => some h.modifiers
  | .property p => some p.modifiers
  | .classConst c => some c.modifiers
  | _ => none

/-- Whether code outside of a class-like can never reach a member: one of a class or an enum that
is private, or protected where there are no subtypes. Members of traits end up in their users. -/
def isInaccessible (kind : ClassKind) (extensible : Bool) (member : Decl) : Bool :=
  (kind == .classType || kind == .enumType) &&
    match accessModifiers? member with
    | some m => m.isPrivate || (!extensible && m.isProtected)
    | none => false

/-- Whether a declaration stays inside another one that is no namespace. -/
def keepsMember (parent : Frame) (member : Decl) : Bool :=
  match parent with
  | .classLike kind extensible =>
    r.options.keepInaccessible || !isInaccessible kind extensible member
  | _ => true

end Request

end Stubsmith
