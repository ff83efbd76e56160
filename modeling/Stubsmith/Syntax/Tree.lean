import Stubsmith.Text.Offset

namespace Stubsmith.Syntax

/-- One node without its children. -/
structure Node where
  kind : String
  /-- Whether the grammar names the node; tokens such as braces have no name. -/
  named : Bool := true
  /-- The node was put in where the source lacks it. -/
  missing : Bool := false
  /-- The node holds source that the grammar has no place for. -/
  isError : Bool := false
  /-- The node or one below it is missing or an error. -/
  hasError : Bool := false
  /-- The role of the node in its parent. -/
  field : Option String := none
  start : Nat
  stop : Nat
deriving DecidableEq, Repr, Inhabited

/-- A tree holds no text: its nodes are ranges of bytes of the source. -/
inductive Tree where
  | node (root : Node) (children : List Tree)
deriving Repr, Inhabited

namespace Tree

def root : Tree → Node
  | node r _ => r

def children : Tree → List Tree
  | node _ cs => cs

def kind (t : Tree) : String :=
  t.root.kind

def field (t : Tree) : Option String :=
  t.root.field

def isNamed (t : Tree) : Bool :=
  t.root.named

def namedChildren (t : Tree) : List Tree :=
  t.children.filter isNamed

def child? (t : Tree) (field : String) : Option Tree :=
  t.children.find? (·.field == some field)

def childOfKind? (t : Tree) (kind : String) : Option Tree :=
  t.children.find? (·.kind == kind)

/-- The first named child other than a comment that stands after a child of kind `token`. -/
def childAfter? (t : Tree) (token : String) : Option Tree :=
  (t.children.dropWhile (·.kind != token)).tail.find? fun c => c.isNamed && c.kind != "comment"

def text (source : String) (t : Tree) : String :=
  Text.slice source t.root.start t.root.stop

/-- The trees of a list of nodes in document order, each with its depth. The nodes that follow a
node down to the next of its own or a lower depth are below it. -/
def forest : List (Nat × Node) → List (Nat × Tree)
  | [] => []
  | (depth, root) :: rest =>
    let later := forest rest
    (depth, node root ((later.takeWhile (depth < ·.1)).map Prod.snd)) ::
      later.dropWhile (depth < ·.1)

/-- The tree of a list of nodes in document order. -/
def ofPreorder? (nodes : List (Nat × Node)) : Option Tree :=
  match forest nodes with
  | [(_, t)] => some t
  | _ => none

mutual

def preorder : Tree → List Node
  | node r cs => r :: preorderAll cs

def preorderAll : List Tree → List Node
  | [] => []
  | t :: ts => preorder t ++ preorderAll ts

end

theorem preorderAll_append (ts us : List Tree) :
    preorderAll (ts ++ us) = preorderAll ts ++ preorderAll us := by
  induction ts with
  | nil => rfl
  | cons t ts ih => rw [List.cons_append, preorderAll, preorderAll, ih, List.append_assoc]

end Tree

end Stubsmith.Syntax
