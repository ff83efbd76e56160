import Stubsmith.Syntax.Literal
import Stubsmith.Syntax.Reference
import Stubsmith.Text.Blank

namespace Stubsmith.Syntax

/-- A node with the nodes before it below the same parent, the nearest first. -/
structure Placed where
  before : List Tree
  tree : Tree
deriving Repr, Inhabited

/-- Nodes with those before them. -/
def placeAll : List Tree → List Tree → List Placed
  | _, [] => []
  | before, t :: ts => ⟨before, t⟩ :: placeAll (t :: before) ts

/-- The named children of a node with what stands before each. -/
def Tree.namedPlaced (t : Tree) : List Placed :=
  (placeAll [] t.children).filter (·.tree.isNamed)

section

variable (source : String) (scope : Scope)

/-- The closest doc comment before a node, past any other comments. -/
def docComment (before : List Tree) : Option String :=
  ((before.takeWhile (·.kind == "comment")).map (Tree.text source)).find? fun text =>
    (Text.stripPrefix? "/**".toList text.toList).isSome

def Placed.doc (p : Placed) : Option String :=
  docComment source p.before

def fieldText (t : Tree) (field : String) : String :=
  ((t.child? field).map (Tree.text source)).getD ""

def typeOf (t : Tree) (field : String) : Option Fragment :=
  (t.child? field).map (render source scope)

def attributesOf (t : Tree) : List Fragment :=
  (t.namedChildren.filter (·.kind == "attribute_list")).map (render source scope)

def isModifierKind (kind : String) : Bool :=
  ["visibility_modifier", "static_modifier", "abstract_modifier", "final_modifier",
    "readonly_modifier", "var_modifier"].contains kind

def modifiersOf (t : Tree) : Modifiers :=
  Modifiers.ofKeywords <|
    (t.children.filter fun c => isModifierKind c.kind).map fun c => Text.trim (c.text source)

def clauseNames (t : Tree) (clause : String) : List String :=
  match t.childOfKind? clause with
  | some c =>
    (c.namedChildren.filter fun n => isNameKind n.kind).map fun n =>
      scope.resolveClass (n.text source)
  | none => []

def variableName (text : String) : String :=
  Text.dropLeading '$' text

def namedVariable (t : Tree) : String :=
  ((t.childOfKind? "variable_name").map (Tree.text source)).getD ""

def paramOf (t : Tree) : Param where
  attributes := attributesOf source scope t
  modifiers := modifiersOf source t
  typeHint := typeOf source scope t "type"
  byRef := (t.childOfKind? "reference_modifier").isSome ||
    ((t.child? "name").map Tree.kind) == some "by_ref"
  variadic := t.kind == "variadic_parameter"
  name := variableName <|
    match t.child? "name" with
    | some n => if n.kind = "by_ref" then namedVariable source n else n.text source
    | none => namedVariable source t
  initial := (t.child? "default_value").map (render source scope)

def isParamKind (kind : String) : Bool :=
  ["simple_parameter", "variadic_parameter", "property_promotion_parameter"].contains kind

def paramsOf (t : Tree) : List Param :=
  match t.child? "parameters" with
  | some ps => (ps.namedChildren.filter fun p => isParamKind p.kind).map (paramOf source scope)
  | none => []

def bodyOf (body : Tree) : List Decl :=
  (body.namedChildren.filter (·.kind != "comment")).map fun c => .verbatim (c.text source) true

def functionOf (p : Placed) : Decl :=
  .function {
      doc := p.doc source
      attributes := attributesOf source scope p.tree
      byRef := (p.tree.childOfKind? "reference_modifier").isSome
      name := fieldText source p.tree "name"
      params := paramsOf source scope p.tree
      returnType := typeOf source scope p.tree "return_type" }
    (((p.tree.child? "body").map (bodyOf source)).getD [])

def constItemsOf (t : Tree) : List ConstItem :=
  (t.namedChildren.filter (·.kind == "const_element")).filterMap fun element =>
    element.namedChildren.head?.map fun name =>
      { name := name.text source
        value := ((element.childAfter? "=").map (render source scope)).getD "" }

def constOf (p : Placed) : Decl :=
  .const { doc := p.doc source, items := constItemsOf source scope p.tree }

def methodOf (p : Placed) : Decl :=
  .method {
      doc := p.doc source
      attributes := attributesOf source scope p.tree
      modifiers := modifiersOf source p.tree
      byRef := (p.tree.childOfKind? "reference_modifier").isSome
      name := fieldText source p.tree "name"
      params := paramsOf source scope p.tree
      returnType := typeOf source scope p.tree "return_type" }
    ((p.tree.child? "body").map (bodyOf source))

def propertyItemOf (element : Tree) : PropertyItem where
  name := variableName (namedVariable source element)
  initial :=
    ((element.child? "default_value" <|>
        (element.childOfKind? "property_initializer").bind (·.namedChildren.head?)) <|>
      element.childAfter? "=").map (render source scope)

def propertyOf (p : Placed) : Decl :=
  .property {
    doc := p.doc source
    attributes := attributesOf source scope p.tree
    modifiers := modifiersOf source p.tree
    typeHint := typeOf source scope p.tree "type"
    items := (p.tree.namedChildren.filter (·.kind == "property_element")).map
      (propertyItemOf source scope) }

def classConstOf (p : Placed) : Decl :=
  .classConst {
    doc := p.doc source
    attributes := attributesOf source scope p.tree
    modifiers := modifiersOf source p.tree
    typeHint := typeOf source scope p.tree "type"
    items := constItemsOf source scope p.tree }

def traitUseOf (p : Placed) : Decl :=
  .traitUse {
    traits := (p.tree.namedChildren.filter fun n => isNameKind n.kind).map fun n =>
      scope.resolveClass (n.text source)
    adaptations := (p.tree.namedChildren.find? (·.kind == "use_list")).map (render source scope) }

def enumCaseOf (p : Placed) : Decl :=
  .enumCase {
    doc := p.doc source
    attributes := attributesOf source scope p.tree
    name := ((p.tree.child? "name" <|> p.tree.childOfKind? "name").map (Tree.text source)).getD ""
    value := (p.tree.child? "value" <|> p.tree.childAfter? "=").map (render source scope) }

def memberOf? (p : Placed) : Option Decl :=
  match p.tree.kind with
  | "comment" => none
  | "method_declaration" => some (methodOf source scope p)
  | "property_declaration" => some (propertyOf source scope p)
  | "const_declaration" => some (classConstOf source scope p)
  | "use_declaration" => some (traitUseOf source scope p)
  | "enum_case" => some (enumCaseOf source scope p)
  | _ => some (.verbatim (p.tree.text source) true)

def classLikeOf (kind : ClassKind) (p : Placed) : Decl :=
  .classLike {
      kind := kind
      doc := p.doc source
      attributes := attributesOf source scope p.tree
      modifiers := modifiersOf source p.tree
      name := (p.tree.child? "name").map (Tree.text source)
      parents := clauseNames source scope p.tree "base_clause"
      interfaces := clauseNames source scope p.tree "class_interface_clause"
      backingType :=
        if kind = .enumType then (p.tree.childAfter? ":").map (render source scope) else none }
    (match (p.tree.child? "body" <|> p.tree.childOfKind? "declaration_list") <|>
        p.tree.childOfKind? "enum_declaration_list" with
      | some body => body.namedPlaced.filterMap (memberOf? source scope)
      | none => [])

def isStringKind (kind : String) : Bool :=
  kind == "string" || kind == "encapsed_string"

/-- What an assignment goes to. An entry of the table of globals is known by a literal key. -/
def assignTargetOf (left : Tree) : AssignTarget :=
  if left.kind = "variable_name" then .plain (variableName (left.text source))
  else
    let place := AssignTarget.place (render source scope left)
    if left.kind = "subscript_expression" then
      match left.namedChildren with
      | base :: index :: _ =>
        if base.text source = "$GLOBALS" && isStringKind index.kind then
          match literalValue? (index.text source) with
          | some key => .globalsEntry key (index.text source)
          | none => place
        else place
      | _ => place
    else place

/-- Whether a call is one of `define`, in any case and with any leading backslashes. -/
def isDefineCall (call : Tree) : Bool :=
  match call.child? "function" with
  | some f => Text.lowercase (Text.dropLeading '\\' (f.text source)) == "define"
  | none => false

/-- A constant made by a call. The name is the value of the first argument, which stands last in it,
behind a label. -/
def defineOf (doc : Option String) (call : Tree) : DefineCall :=
  let arguments : List Tree :=
    match call.child? "arguments" with
    | some args => args.namedChildren.filter (·.kind == "argument")
    | none => []
  { doc := doc
    name :=
      (arguments.head?.bind (·.namedChildren.getLast?)).bind fun value =>
        if isStringKind value.kind then literalValue? (value.text source) else none
    args := arguments.map (render source scope) }

/-- A statement that is one expression: an assignment, a constant made by a call, or anything. -/
def expressionStatementOf (p : Placed) : Decl :=
  let asItStands := Decl.verbatim (p.tree.text source) true
  match p.tree.namedChildren.find? (·.kind != "comment") with
  | some e =>
    if e.kind = "assignment_expression" then
      match e.child? "left", e.child? "right" with
      | some left, some right =>
        .assign {
          doc := p.doc source
          target := assignTargetOf source scope left
          value := render source scope right }
      | _, _ => asItStands
    else if e.kind = "function_call_expression" && isDefineCall source e then
      .define (defineOf source scope (p.doc source) e)
    else asItStands
  | none => asItStands

/-- The condition of a guard, without the parentheses around it. -/
def conditionOf (t : Tree) : Fragment :=
  match t.child? "condition" with
  | some c =>
    if c.kind = "parenthesized_expression" then
      (c.namedChildren.head?.map (render source scope)).getD ""
    else render source scope c
  | none => ""

end

end Stubsmith.Syntax
