import Stubsmith.Decl.Basic
import Stubsmith.Name.Scope
import Stubsmith.Syntax.Tree

namespace Stubsmith.Syntax

def isNameKind (kind : String) : Bool :=
  ["name", "qualified_name", "relative_name"].contains kind

def isScopeKind (kind : String) : Bool :=
  ["class_constant_access_expression", "scoped_call_expression",
    "scoped_property_access_expression"].contains kind

def isMemberKind (kind : String) : Bool :=
  ["member_access_expression", "nullsafe_member_access_expression", "member_call_expression",
    "nullsafe_member_call_expression"].contains kind

/-- Kinds of nodes that are written as they stand, whatever is below them. -/
def isOpaqueKind (kind : String) : Bool :=
  ["primitive_type", "variable_name", "string", "encapsed_string", "heredoc", "nowdoc", "comment",
    "integer", "float", "boolean", "null", "relative_scope", "cast_type", "anonymous_function",
    "arrow_function"].contains kind

/-- Whether the child at a place is the first child for which `p` holds. -/
def isFirst (p : Tree → Bool) (children : List Tree) (place : Nat) : Bool :=
  children.findIdx? p == some place

def hasField (field : String) (t : Tree) : Bool :=
  t.field == some field

/-- What a name stands for at a place below a node, and nothing where no references are read. Where
something is read that is no name, references are looked for below it. -/
def reading? (kind : String) (children : List Tree) (place : Nat) (child : Tree) :
    Option ImportKind :=
  if isOpaqueKind kind then none
  else if kind = "named_type" then
    if isFirst Tree.isNamed children place && isNameKind child.kind then some .classLike else none
  else if isScopeKind kind then
    if isFirst Tree.isNamed children place then some .classLike
    else if child.isNamed && !isNameKind child.kind then some .constant
    else none
  else if kind = "object_creation_expression" || kind = "attribute" then
    if child.isNamed then some .classLike else none
  else if kind = "function_call_expression" then
    if isFirst (hasField "function") children place then some .function
    else if isFirst (hasField "arguments") children place then some .constant
    else none
  else if isMemberKind kind then
    if isFirst (hasField "object") children place || isFirst (hasField "arguments") children place
    then some .constant
    else none
  else if kind = "binary_expression" then
    if isFirst (hasField "left") children place then some .constant
    else if isFirst (hasField "right") children place then
      if ((children.find? (hasField "operator")).map Tree.kind) == some "instanceof"
      then some .classLike
      else some .constant
    else none
  else if kind = "argument" then
    if child.isNamed && !isFirst (hasField "name") children place then some .constant else none
  else if child.isNamed then some .constant
  else none

/-- A range of the source and the name to stand there. -/
structure Reference where
  start : Nat
  stop : Nat
  resolved : String
deriving DecidableEq, Repr, Inhabited

/-- What a name resolves to where it stands for something of a kind. -/
def resolveAs (scope : Scope) : ImportKind → String → String
  | .classLike => scope.resolveClass
  | .function => scope.resolveFunction
  | .constant => scope.resolveConstant

mutual

/-- The names in a fragment that stand for classes, functions or constants, as ranges of the source
with their resolved names. -/
def references (source : String) (scope : Scope) (reading : ImportKind) : Tree → List Reference
  | .node r cs =>
    if isNameKind r.kind then
      [⟨r.start, r.stop, resolveAs scope reading (Text.slice source r.start r.stop)⟩]
    else referencesBelow source scope r.kind cs 0 cs

/-- The references below the children of a node from a place on. -/
def referencesBelow (source : String) (scope : Scope) (kind : String) (siblings : List Tree) :
    Nat → List Tree → List Reference
  | _, [] => []
  | place, c :: cs =>
    (match reading? kind siblings place c with
      | some reading => references source scope reading c
      | none => []) ++
    referencesBelow source scope kind siblings (place + 1) cs

end

/-- The source from one offset to another with each reference replaced by its resolved name. The
references come in the order of their starts; one that starts before the last has ended is left. -/
def splice (source : String) (stop : Nat) : Nat → List Reference → String
  | position, [] => Text.slice source position stop
  | position, ref :: refs =>
    if ref.start < position then splice source stop position refs
    else
      Text.slice source position ref.start ++ ref.resolved ++ splice source stop ref.stop refs

/-- The references of a fragment in the order of their starts. -/
def sortedReferences (source : String) (scope : Scope) (t : Tree) : List Reference :=
  (references source scope .constant t).mergeSort fun a b => a.start ≤ b.start

/-- A fragment of source with all its references resolved. -/
def render (source : String) (scope : Scope) (t : Tree) : Fragment :=
  splice source t.root.stop t.root.start (sortedReferences source scope t)

end Stubsmith.Syntax
