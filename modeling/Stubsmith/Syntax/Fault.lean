import Stubsmith.Syntax.Tree
import Stubsmith.Text.Blank

namespace Stubsmith

/-- Why a source has no declaration tree. Lines and columns count from one, columns in bytes. -/
structure ParseError where
  message : String
  line : Nat
  column : Nat
deriving DecidableEq, Repr, Inhabited

/-- The error of a source for which there is no syntax tree at all. -/
def ParseError.withoutTree : ParseError :=
  ⟨"Parser produced no syntax tree", 1, 1⟩

def ParseError.reason (e : ParseError) : String :=
  e.message ++ " on line " ++ toString e.line ++ ", column " ++ toString e.column

namespace Syntax

/-- A node that is a fault by itself. -/
def Node.isFault (n : Node) : Bool :=
  n.isError || n.missing

namespace Tree

/-- The first fault in the trees of a stack, the top one first. The children of a tree take its
place on the stack where it says that there is something to find below it. -/
def searchFault : List Tree → Option Node
  | [] => none
  | node r cs :: stack =>
    if r.isFault then some r
    else if r.hasError then searchFault (cs ++ stack)
    else searchFault stack
termination_by stack => (preorderAll stack).length
decreasing_by
  all_goals
    simp only [preorderAll_append, preorderAll, preorder, List.length_append, List.length_cons]
    omega

def fault? (t : Tree) : Option Node :=
  searchFault [t]

end Tree

/-- An error at the start of a node. -/
def Node.errorAt (source : String) (n : Node) (message : String) : ParseError :=
  let (row, column) := Text.rowColumn source.toList n.start (0, 0)
  ⟨message, row + 1, column + 1⟩

/-- What is wrong at a fault. -/
def Node.faultMessage (source : String) (n : Node) : String :=
  if n.missing then "Syntax error, missing '" ++ n.kind ++ "'"
  else
    "Syntax error, unexpected '" ++
      (Text.firstWord? (Text.slice source n.start n.stop)).getD "end of file" ++ "'"

def Tree.syntaxError (source : String) (t : Tree) : ParseError :=
  match t.fault? with
  | some n => n.errorAt source (n.faultMessage source)
  | none => t.root.errorAt source "Syntax error"

end Syntax

end Stubsmith
