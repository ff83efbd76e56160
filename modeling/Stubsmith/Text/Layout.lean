namespace Stubsmith.Text

structure Line where
  depth : Nat
  text : String
deriving DecidableEq, Repr, Inhabited

namespace Line

def blank : Line := ⟨0, ""⟩

/-- The spaces before a line at a depth, four for each step. -/
def margin (depth : Nat) : String :=
  String.ofList (List.replicate (4 * depth) ' ')

/-- A line as written. An empty one has no margin. -/
def render (l : Line) : String :=
  if l.text = "" then "\n" else margin l.depth ++ l.text ++ "\n"

/-- The line `steps` deeper. -/
def deepen (steps : Nat) (l : Line) : Line :=
  { l with depth := l.depth + steps }

end Line

def indented (ls : List Line) : List Line :=
  ls.map (Line.deepen 1)

def renderLines (ls : List Line) : String :=
  String.join (ls.map Line.render)

end Stubsmith.Text
