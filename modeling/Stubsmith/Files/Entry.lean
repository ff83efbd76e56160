namespace Stubsmith

/-- A tree of files, links and directories. -/
inductive Entry where
  | file (contents : ByteArray)
  /-- A symbolic link to a path. -/
  | link (target : String)
  | directory (entries : List (String × Entry))
deriving Inhabited

/-- The names on the way from the root. -/
abbrev Location := List String

namespace Entry

/-- The named entries of a directory; nothing else has any. -/
def entries : Entry → List (String × Entry)
  | directory es => es
  | _ => []

def get? : Entry → Location → Option Entry
  | e, [] => some e
  | e, name :: rest => (e.entries.lookup name).bind (get? · rest)

/-- Entries with the one of a name replaced, or added as the last. -/
def putName (name : String) (e : Entry) : List (String × Entry) → List (String × Entry)
  | [] => [(name, e)]
  | (n, old) :: rest => if n = name then (n, e) :: rest else (n, old) :: putName name e rest

/-- The tree with an entry put at a location. Where no directory leads there nothing changes. -/
def put (new : Entry) : Location → Entry → Entry
  | [], _ => new
  | [name], directory es => directory (putName name new es)
  | name :: rest, directory es =>
    match es.lookup name with
    | some inner => directory (putName name (put new rest inner) es)
    | none => directory es
  | _ :: _, e => e

mutual

def directoryCount : Entry → Nat
  | file _ => 0
  | link _ => 0
  | directory es => 1 + directoryCountAll es

def directoryCountAll : List (String × Entry) → Nat
  | [] => 0
  | (_, e) :: es => directoryCount e + directoryCountAll es

end

end Entry

end Stubsmith
