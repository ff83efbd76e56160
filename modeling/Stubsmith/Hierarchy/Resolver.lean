import Stubsmith.Decl.Group
import Stubsmith.Hierarchy.Graph
import Stubsmith.Hierarchy.Registry

namespace Stubsmith

/-- Descriptors in their slots, and the groups of those that were taken out of them. -/
structure Placement where
  slots : List (Option Descriptor)
  groups : List Group := []
deriving Repr, Inhabited

namespace Placement

/-- Adds a class-like to the last group if that is of its namespace, and else as a new group. -/
def append : List Group → Descriptor → List Group
  | [], d => [⟨d.space, [d.toDecl]⟩]
  | [g], d =>
    if g.space = d.space then [⟨g.space, g.body ++ [d.toDecl]⟩] else [g, ⟨d.space, [d.toDecl]⟩]
  | g :: g' :: gs, d => g :: append (g' :: gs) d

/-- Takes the descriptor out of a slot and writes it, unless that was done before. -/
def emit (p : Placement) (slot : Nat) : Placement :=
  match p.slots.getD slot none with
  | some d => ⟨p.slots.set slot none, append p.groups d⟩
  | none => p

end Placement

/-- A resolver goes depth first from slot to slot and numbers the slots as it comes to them. Those
that it may still come back to stand on a stack. The lowest number there that a slot is known to
lead back to tells whether all that depend on one another have been found. -/
structure Resolver where
  /-- The numbers of the slots that were visited. -/
  visitIndex : List (Option Nat)
  /-- The lowest number of a slot on the stack that each slot is known to lead back to. -/
  lowLink : List Nat
  onStack : List Bool
  /-- The slots that were visited and not written, the last one first. -/
  stack : List Nat := []
  nextIndex : Nat := 0
  placement : Placement
deriving Repr, Inhabited

namespace Resolver

def index? (s : Resolver) (slot : Nat) : Option Nat :=
  s.visitIndex.getD slot none

def low (s : Resolver) (slot : Nat) : Nat :=
  s.lowLink.getD slot 0

def isOnStack (s : Resolver) (slot : Nat) : Bool :=
  s.onStack.getD slot false

/-- A resolver that has visited none of the slots. -/
def start (slots : List (Option Descriptor)) : Resolver where
  visitIndex := List.replicate slots.length none
  lowLink := List.replicate slots.length 0
  onStack := List.replicate slots.length false
  placement := { slots := slots }

def enter (s : Resolver) (slot : Nat) : Resolver :=
  { s with
    visitIndex := s.visitIndex.set slot (some s.nextIndex)
    lowLink := s.lowLink.set slot s.nextIndex
    onStack := s.onStack.set slot true
    stack := slot :: s.stack
    nextIndex := s.nextIndex + 1 }

/-- Notes that a slot leads back to a number. -/
def lower (s : Resolver) (slot n : Nat) : Resolver :=
  { s with lowLink := s.lowLink.set slot (min (s.low slot) n) }

/-- What stands on a stack down to a slot, and what stands below that. -/
def popTo (slot : Nat) : List Nat → List Nat × List Nat
  | [] => ([], [])
  | member :: rest =>
    if member = slot then ([member], rest)
    else
      let (component, below) := popTo slot rest
      (member :: component, below)

/-- Writes all from a slot on upwards on the stack, in the order of registration. -/
def close (s : Resolver) (slot : Nat) : Resolver :=
  let (component, below) := popTo slot s.stack
  { s with
    stack := below
    onStack := component.foldl (fun on member => on.set member false) s.onStack
    placement := (component.mergeSort (· ≤ ·)).foldl .emit s.placement }

/-- Looks at a dependency of a slot, and visits it with `connect` if that was not done before. -/
def follow (connect : Resolver → Nat → Resolver) (slot : Nat) (s : Resolver) (dependency : Nat) :
    Resolver :=
  match s.index? dependency with
  | none =>
    let s := connect s dependency
    s.lower slot (s.low dependency)
  | some index => if s.isOnStack dependency then s.lower slot index else s

/-- Visits a slot and all that it depends on, with the dependencies of each slot for successors. The
first number bounds the depth, which is at most the number of slots, since each is visited once. -/
def connect (g : Graph) : Nat → Resolver → Nat → Resolver
  | 0, s, _ => s
  | depth + 1, s, slot =>
    let s := (g.next slot).foldl (follow (connect g depth) slot) (s.enter slot)
    if s.index? slot = some (s.low slot) then s.close slot else s

def visit (g : Graph) (depth : Nat) (s : Resolver) (slot : Nat) : Resolver :=
  if (s.index? slot).isNone then connect g depth s slot else s

end Resolver

end Stubsmith
