import Stubsmith.Syntax.Fault
import Stubsmith.Syntax.Import
import Stubsmith.Syntax.Member

namespace Stubsmith.Syntax

/-- Kinds of nodes that leave nothing behind. -/
def isSkippedKind (kind : String) : Bool :=
  ["comment", "php_tag", "text", "text_interpolation", "empty_statement"].contains kind

def simpleStatement (source : String) (scope : Scope) (p : Placed) : Decl :=
  match p.tree.kind with
  | "function_definition" => functionOf source scope p
  | "class_declaration" => classLikeOf source scope .classType p
  | "interface_declaration" => classLikeOf source scope .interfaceType p
  | "trait_declaration" => classLikeOf source scope .traitType p
  | "enum_declaration" => classLikeOf source scope .enumType p
  | "const_declaration" => constOf source scope p
  | "expression_statement" => expressionStatementOf source scope p
  | _ => .verbatim (p.tree.text source) true

mutual

/-- The declaration that a statement makes, if any, and the scope after it. -/
def statement (source : String) (scope : Scope) (before : List Tree) :
    Tree → Option Decl × Scope
  | .node r cs =>
    if isSkippedKind r.kind then (none, scope)
    else if r.kind = "namespace_use_declaration" then
      (none, importAll source (.node r cs) scope)
    else if r.kind = "if_statement" then
      let (body, scope') := guardedBody source scope [] cs
      (some (.guarded (conditionOf source scope (.node r cs)) body), scope')
    else (some (simpleStatement source scope ⟨before, .node r cs⟩), scope)

/-- The declarations of a list of nodes, and the scope after them. -/
def statements (source : String) (scope : Scope) (before : List Tree) :
    List Tree → List Decl × Scope
  | [] => ([], scope)
  | t :: ts =>
    if t.isNamed then
      let (d, scope') := statement source scope before t
      let (ds, scope'') := statements source scope' (t :: before) ts
      (d.toList ++ ds, scope'')
    else statements source scope (t :: before) ts

/-- The declarations in the body of a guard, which is the first child with that role: a block, or
one statement without braces. -/
def guardedBody (source : String) (scope : Scope) (before : List Tree) :
    List Tree → List Decl × Scope
  | [] => ([], scope)
  | .node r cs :: ts =>
    if r.field == some "body" then
      if r.kind = "compound_statement" || r.kind = "colon_block" then statements source scope [] cs
      else
        let (d, scope') := statement source scope before (.node r cs)
        (d.toList, scope')
    else guardedBody source scope (.node r cs :: before) ts

end

/-- The name of a namespace definition, absent where nothing but backslashes stands there. -/
def namespaceName? (source : String) (t : Tree) : Option String :=
  ((t.child? "name").map fun n => Scope.stripBackslashes (n.text source)).filter (· ≠ "")

/-- A namespace without braces that is still being read. -/
structure OpenSpace where
  name : Option String
  body : List Decl := []
deriving Repr, Inhabited

def OpenSpace.close : Option OpenSpace → List Decl
  | some s => [.space s.name s.body]
  | none => []

/-- The declarations of the top level of a file from some node on. -/
def topLevel (source : String) : Scope → Option OpenSpace → List Placed → List Decl
  | _, current, [] => OpenSpace.close current
  | scope, current, p :: ps =>
    if p.tree.kind = "namespace_definition" then
      let name := namespaceName? source p.tree
      match p.tree.child? "body" with
      | some body =>
        OpenSpace.close current ++
          .space name (statements source (.start name) [] body.children).1 ::
            topLevel source (.start none) none ps
      | none => OpenSpace.close current ++ topLevel source (.start name) (some ⟨name, []⟩) ps
    else
      match statement source scope p.before p.tree, current with
      | (none, scope'), _ => topLevel source scope' current ps
      | (some d, scope'), none => d :: topLevel source scope' none ps
      | (some d, scope'), some s =>
        topLevel source scope' (some { s with body := s.body ++ [d] }) ps

/-- Statements are read in order with the scope that they stand in, which an import changes for
those behind it. -/
def program (source : String) (t : Tree) : List Decl :=
  topLevel source {} none t.namedPlaced

def parse (source : String) (t : Tree) : Except ParseError (List Decl) :=
  if t.root.hasError then .error (t.syntaxError source) else .ok (program source t)

end Stubsmith.Syntax
