import Stubsmith.Syntax.Program

namespace Stubsmith.Syntax

/-- The node of a line, with its depth. -/
def Node.ofLine? (line : String) : Option (Nat × Node) :=
  match (Text.splitOn ' ' line.toList).map String.ofList with
  | depth :: flags :: start :: stop :: field :: kind => do
    let flags ← flags.toNat?
    return (← depth.toNat?,
      { kind := String.intercalate " " kind
        named := flags.testBit 0
        missing := flags.testBit 1
        isError := flags.testBit 2
        hasError := flags.testBit 3
        field := if field = "-" then none else some field
        start := ← start.toNat?
        stop := ← stop.toNat? })
  | _ => none

def Tree.ofText? (text : String) : Option Tree := do
  ofPreorder? (← (Text.lines text).mapM Node.ofLine?)

def parseAmong (trees : List (String × Tree)) (source : String) : Except ParseError (List Decl) :=
  match trees.lookup source with
  | some t => parse source t
  | none => .error .withoutTree

end Stubsmith.Syntax
