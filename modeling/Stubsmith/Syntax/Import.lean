import Stubsmith.Name.Scope
import Stubsmith.Syntax.Tree

namespace Stubsmith.Syntax

structure Import where
  kind : ImportKind
  target : String
  aliasName : Option String
deriving DecidableEq, Repr, Inhabited

def Import.addTo (i : Import) (s : Scope) : Scope :=
  s.add i.kind i.target i.aliasName

/-- The table that a marker at a declaration or at a clause selects. -/
def markedKind? (t : Tree) : Option ImportKind :=
  t.children.findSome? fun c =>
    if c.kind = "function" then some .function
    else if c.kind = "const" then some .constant
    else none

def isTargetKind (kind : String) : Bool :=
  ["name", "qualified_name", "namespace_name"].contains kind

/-- The target and the alias of a clause. The first name is the target and a later one the alias. -/
def targetAndAlias (source : String) (clause : Tree) : Option String × Option String :=
  clause.namedChildren.foldl (fun (target, aliasName) c =>
    if isTargetKind c.kind then
      match target with
      | none => (some (c.text source), aliasName)
      | some t => (some t, some (c.text source))
    else if c.kind = "namespace_aliasing_clause" then
      (target, c.namedChildren.head?.map (Tree.text source))
    else (target, aliasName)) (none, none)

/-- The import of one clause, behind what stands before its group. -/
def clauseImport? (source : String) (kind : ImportKind) (lead : Option String) (clause : Tree) :
    Option Import :=
  let (target, aliasName) := targetAndAlias source clause
  target.map fun target =>
    match lead with
    | some lead => ⟨kind, lead ++ "\\" ++ Text.dropLeading '\\' target, aliasName⟩
    | none => ⟨kind, target, aliasName⟩

/-- The imports of a group. A clause's own marker counts before that of the declaration. -/
def groupImports (source : String) (kind : ImportKind) (lead : Option String) (group : Tree) :
    List Import :=
  (group.namedChildren.filter fun clause =>
    clause.kind == "namespace_use_clause" || clause.kind == "namespace_use_group_clause").filterMap
      fun clause => clauseImport? source ((markedKind? clause).getD kind) lead clause

/-- The imports of the parts of a declaration, `lead` being what stands before a group. -/
def partImports (source : String) (kind : ImportKind) : Option String → List Tree → List Import
  | _, [] => []
  | lead, part :: parts =>
    if part.kind = "namespace_use_clause" then
      (clauseImport? source kind none part).toList ++ partImports source kind lead parts
    else if isTargetKind part.kind then
      partImports source kind (some (Scope.stripBackslashes (part.text source))) parts
    else if part.kind = "namespace_use_group" then
      groupImports source kind lead part ++ partImports source kind lead parts
    else partImports source kind lead parts

/-- A declaration with a group is a list of imports, one for each clause, that share what stands
before the group. -/
def declaredImports (source : String) (t : Tree) : List Import :=
  partImports source ((markedKind? t).getD .classLike) none t.namedChildren

def importAll (source : String) (t : Tree) (s : Scope) : Scope :=
  (declaredImports source t).foldl (fun s i => i.addTo s) s

end Stubsmith.Syntax
