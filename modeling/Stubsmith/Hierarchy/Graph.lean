namespace Stubsmith

/-- A directed graph on the numbers below its size, given by the successors of each vertex. -/
structure Graph where
  successors : List (List Nat)
deriving Repr, Inhabited

namespace Graph

def size (g : Graph) : Nat :=
  g.successors.length

def next (g : Graph) (v : Nat) : List Nat :=
  g.successors.getD v []

end Graph

end Stubsmith
