import Stubsmith.Text.Edges

namespace Stubsmith.Path

def isAbsolute (path : String) : Bool :=
  path.toList.head? == some '/'

def pieces (path : String) : List String :=
  let cs := path.toList
  (Text.splitOn '/' (if isAbsolute path then cs.drop 1 else cs)).map String.ofList

/-- One part of a path, which names a way on from a directory. -/
inductive Part where
  | root
  | here
  | parent
  | name (s : String)
deriving DecidableEq, Repr, Inhabited

def Part.rank : Part → Nat
  | root => 0
  | here => 1
  | parent => 2
  | name _ => 3

/-- The order of parts; names are ordered as text. -/
def Part.before : Part → Part → Bool
  | name s, name t => s < t
  | p, q => p.rank < q.rank

def partOf? (piece : String) : Option Part :=
  if piece = "" || piece = "." then none
  else if piece = ".." then some .parent
  else some (.name piece)

/-- The parts of a path that mean something. -/
def parts (path : String) : List Part :=
  let start : List Part :=
    if isAbsolute path then [.root]
    else if (pieces path).head? == some "." then [.here]
    else []
  start ++ (pieces path).filterMap partOf?

/-- Whether a list of parts comes before another: at the first difference, or as its start. -/
def partsBefore : List Part → List Part → Bool
  | [], [] => false
  | [], _ :: _ => true
  | _ :: _, [] => false
  | p :: ps, q :: qs => p.before q || (p == q && partsBefore ps qs)

/-- Paths are ordered part by part, which is not the order of their texts. -/
def before (p q : String) : Bool :=
  partsBefore (parts p) (parts q)

def sameParts (p q : String) : Bool :=
  parts p == parts q

/-- A path that continues at another one, which stands alone if it is absolute. -/
def join (path more : String) : String :=
  if isAbsolute more then more
  else if path = "" || path.toList.getLast? == some '/' then path ++ more
  else path ++ "/" ++ more

/-- The pieces, in reverse, from the last one on that means something. A single dot does so only at
the start of a relative path. -/
def trimPieces (absolute : Bool) : List String → List String
  | [] => []
  | piece :: rest =>
    if piece = "" || (piece = "." && (absolute || !rest.isEmpty)) then trimPieces absolute rest
    else piece :: rest

/-- The path without its last part, absent where there is no part but the root. -/
def parent? (path : String) : Option String :=
  let absolute := isAbsolute path
  match trimPieces absolute (pieces path).reverse with
  | [] => none
  | _ :: rest =>
    let left := String.intercalate "/" (trimPieces absolute rest).reverse
    some (if absolute then "/" ++ left else left)

/-- What stands behind the last dot of a name, unless nothing stands before it. -/
def extension? (name : String) : Option String :=
  let behind := name.toList.reverse.takeWhile (· != '.')
  let before := (name.toList.reverse.dropWhile (· != '.')).drop 1
  if before.isEmpty then none else some (String.ofList behind.reverse)

end Stubsmith.Path
