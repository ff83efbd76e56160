import Stubsmith.Decl.Walk
import Stubsmith.Extract.Keep

namespace Stubsmith

namespace Request

variable (r : Request)

def frameOf (s : ExtractState) : Decl → Frame
  | .space name _ => .space (name.getD "")
  | .classLike h _ => .classLike h.kind h.isExtensible
  | .guarded .. => .guard (!s.inGuard)
  | _ => .other

/-- Whether a key of the table of globals is also the name of a variable. -/
def isIdentifier (key : String) : Bool :=
  match key.toList with
  | [] => false
  | c :: cs => (c.isAlpha || c == '_') && cs.all fun c => c.isAlphanum || c == '_'

/-- An entry of the table of globals as the plain variable that it is. -/
def plainTarget : AssignTarget → AssignTarget
  | .globalsEntry key literal => if isIdentifier key then .plain key else .globalsEntry key literal
  | target => target

/-- An assignment as a stub shows it. -/
def stubAssignment (atSpaceLevel : Bool) (a : Assignment) : Assignment :=
  { a with
    target := if atSpaceLevel then plainTarget a.target else a.target
    value := if r.options.nullifyGlobals then "null" else a.value }

/-- The declaration, and whether to look inside, in a state that is already inside it. -/
def enterWithin (d : Decl) (atSpaceLevel : Bool) (s : ExtractState) :
    (Decl × Descent) × ExtractState :=
  let descent (s : ExtractState) : Descent := if s.inDeclaration then .into else .skip
  match d with
  | .space .. => ((d, .into), s)
  | .classLike h _ =>
    let s := if r.selection.hasClassKind h.kind then { s with inDeclaration := true } else s
    ((d, descent s), s)
  | .function .. => ((d, .drop), { s with inDeclaration := true })
  | .method .. => ((d, .drop), { s with inDeclaration := true })
  | .assign a =>
    ((.assign (r.stubAssignment atSpaceLevel a), .into), { s with inDeclaration := true })
  | .const _ => ((d, .into), { s with inDeclaration := true })
  | .define c =>
    let s := if c.name.isSome then { s with inDeclaration := true } else s
    ((d, descent s), s)
  | .guarded .. =>
    if s.inGuard then ((d, descent s), s) else ((d, .into), { s with inGuard := true })
  | _ => ((d, descent s), s)

def enter (d : Decl) (s : ExtractState) : (Decl × Descent) × ExtractState :=
  r.enterWithin d (s.frames.all Frame.isSpace) { s with frames := frameOf s d :: s.frames }

/-- Whether the walk is done with a declaration that may be kept once it leaves this one. -/
def endsDeclaration : Decl → Bool
  | .assign _ | .function .. | .classLike .. | .const _ | .define _ => true
  | _ => false

/-- Where a declaration goes that is kept: class-likes to their registry, others stay in their
namespace or, at the top level, join those found so far. -/
def place (space : String) (inSpace : Bool) (d : Decl) (x : Extract) : List Decl × Extract :=
  match d with
  | .classLike h body =>
    if h.name.isSome then
      ([], { x with classLikes := x.classLikes.insert (.ofClassLike space ⟨h, body⟩) })
    else ([], x)
  | d =>
    if inSpace then ([d], x)
    else if d.isStatement then ([], { x with statements := x.statements ++ [d] })
    else ([], { x with expressions := x.expressions ++ [d] })

/-- Judges a declaration at the top level or directly in a namespace. -/
def settleCandidate (space : Option String) (d : Decl) (s : ExtractState) :
    List Decl × ExtractState :=
  match r.keep? (space.getD "") s.inGuard d s.found.tally with
  | (none, tally) => ([], { s with found := { s.found with tally := tally } })
  | (some d, tally) =>
    let (left, found) := place (space.getD "") space.isSome d { s.found with tally := tally }
    (left, { s with found := found })

/-- Judges a declaration below a parent, with its children already judged. -/
def settle (parent : Option Frame) (d : Decl) (s : ExtractState) : List Decl × ExtractState :=
  let s := if endsDeclaration d then { s with inDeclaration := false } else s
  match d with
  | .space name body =>
    if body.isEmpty then ([], s)
    else
      let spaces := s.found.spaces ++ [⟨name.getD "", body⟩]
      ([], { s with found := { s.found with spaces := spaces } })
  | d =>
    match parent with
    | none => r.settleCandidate none d s
    | some (.space name) => r.settleCandidate (some name) d s
    | some frame => (if r.keepsMember frame d then [d] else [], s)

def settleAll (parent : Option Frame) : List Decl → ExtractState → List Decl × ExtractState
  | [], s => ([], s)
  | d :: ds, s =>
    let (here, s) := r.settle parent d s
    let (later, s) := settleAll parent ds s
    (here ++ later, s)

def leave (d : Decl) (s : ExtractState) : List Decl × ExtractState :=
  let parent := s.frames.tail.head?
  let left := { s with frames := s.frames.tail }
  match s.frames.head?, d with
  | some (.guard true), .guarded _ body =>
    let (kept, s) := r.settleAll parent body left
    (kept, { s with inGuard := false })
  | _, d => r.settle parent d left

/-- A walk begins inside nothing. -/
def visitor : Visitor ExtractState where
  before s := { s with frames := [] }
  enter := r.enter
  leave := r.leave

/-- What a walk over a file leaves over, and the state after it. -/
def walkFile (ds : List Decl) (s : ExtractState) : List Decl × ExtractState :=
  r.visitor.traverse ds s

def visitFile (s : ExtractState) (ds : List Decl) : ExtractState :=
  (r.walkFile ds s).2

def extract (files : List (List Decl)) : Extract :=
  (files.foldl r.visitFile {}).found

end Request

end Stubsmith
