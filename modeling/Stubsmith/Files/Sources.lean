import Stubsmith.Failure
import Stubsmith.Files.FileSystem

namespace Stubsmith

def versionControlNames : List String :=
  [".git", ".svn", ".hg", "CVS", "_darcs", ".bzr", ".arch-params", ".monotone"]

namespace FileSystem

variable (fs : FileSystem)

/-- What an entry of a directory is, with links followed, and where that is. -/
def resolveEntry (path : String) (here : Location) (e : Entry) :
    Except SearchError (Location × Entry) :=
  match e with
  | .link _ =>
    match fs.find path with
    | .ok found => .ok found
    | .error cause => .error (.io path cause)
  | e => .ok (here, e)

/-- The directory on the way that a link leads back to. -/
def cycle? (above : List (Location × String)) (e target : Entry) (location : Location) :
    Option String :=
  match e, target with
  | .link _, .directory _ => above.lookup location
  | _, _ => none

/-- The PHP files below a directory, given the directories that it is in. The first number bounds
the depth. Where the number of all directories is not enough, one of them was entered inside itself,
and the search comes to a cycle in any case. -/
def searchWithin : Nat → List (Location × String) → String → Location → List (String × Entry) →
    Except SearchError (List String)
  | 0, _, path, _, _ => .error (.io path .tooManyLinks)
  | depth + 1, above, path, here, es =>
    (es.mergeSort fun a b => a.1 ≤ b.1).foldlM (fun found (name, e) => do
      let below := Path.join path name
      let (location, target) ← fs.resolveEntry below (here ++ [name]) e
      match cycle? ((here, path) :: above) e target location with
      | some ancestor => throw (.cycle ancestor below)
      | none =>
        match target with
        | .directory inner =>
          if versionControlNames.contains name then return found
          else
            return found ++
              (← searchWithin depth ((here, path) :: above) below location inner)
        | .file _ =>
          return if Path.extension? name == some "php" then found ++ [below] else found
        | .link _ => return found) []

/-- The PHP files below the directory that a path leads to, each as shown behind that path. -/
def search (path : String) : Except SearchError (List String) :=
  match fs.find path with
  | .ok (location, .directory es) =>
    fs.searchWithin (fs.root.directoryCount + 1) [] path location es
  | .ok _ => .ok []
  | .error cause => .error (.io path cause)

end FileSystem

/-- Paths with the same parts, of which the first stays. -/
def dropRepeated : List String → List String
  | [] => []
  | [p] => [p]
  | p :: q :: rest =>
    if Path.sameParts p q then dropRepeated (p :: rest) else p :: dropRepeated (q :: rest)

def canonicalPaths (paths : List String) : List String :=
  dropRepeated (paths.mergeSort fun p q => !Path.before q p)

/-- The files below the directories among the sources, and the files among them. -/
structure Found where
  below : List String := []
  named : List String := []
deriving DecidableEq, Repr, Inhabited

/-- Adds what a source stands for. -/
def Found.addSource (fs : FileSystem) (excluded : String → Bool) (found : Found) (source : String) :
    Except Failure Found :=
  if fs.isDirectory source then
    match fs.search source with
    | .ok paths => .ok { found with below := found.below ++ paths.filter (!excluded ·) }
    | .error cause => .error (.search cause)
  else if fs.isFile source then
    .ok (if excluded source then found else { found with named := found.named ++ [source] })
  else .error (.sourceNotFound source)

def findSources (fs : FileSystem) (excluded : String → Bool) (sources : List String) :
    Except Failure (List String) :=
  (sources.foldlM (Found.addSource fs excluded) {}).map fun found =>
    canonicalPaths found.below ++ found.named

def readPatterns (patterns : List String) : Except Failure (List (List Glob.Token)) :=
  patterns.mapM fun pattern =>
    match Glob.read pattern with
    | .ok tokens => .ok tokens
    | .error cause => .error (.invalidPattern pattern cause)

def excludes (patterns : List (List Glob.Token)) (path : String) : Bool :=
  patterns.any (Glob.matchesPath · path)

/-- The files that sources stand for, without those that a pattern matches. -/
def FileSystem.sources (fs : FileSystem) (patterns sources : List String) :
    Except Failure (List String) := do
  findSources fs (excludes (← readPatterns patterns)) sources

end Stubsmith
