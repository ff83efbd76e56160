import Stubsmith.Name.Qualified

namespace Stubsmith

/-- The three tables that imports go to. -/
inductive ImportKind where
  | classLike
  | function
  | constant
deriving DecidableEq, Repr, Inhabited

/-- Aliases of constants are told apart by case, others are not. -/
def ImportKind.key (kind : ImportKind) (name : String) : ImportKind × String :=
  match kind with
  | .constant => (kind, name)
  | .classLike | .function => (kind, Text.lowercase name)

/-- The current namespace with the imports made in it. -/
structure Scope where
  /-- The namespace without outer backslashes, absent for the global one. -/
  space : Option String := none
  /-- Targets by table and alias, the latest first. -/
  targets : List ((ImportKind × String) × String) := []
deriving DecidableEq, Repr, Inhabited

namespace Scope

/-- A text without the backslashes at its ends. -/
def stripBackslashes (name : String) : String :=
  String.ofList (Text.stripBoth (· == '\\') name.toList)

/-- The scope at the start of a namespace, into which no import carries over. -/
def start (name : Option String) : Scope where
  space := (name.map stripBackslashes).filter (· ≠ "")

def lastSegment (name : String) : String :=
  String.ofList (name.toList.reverse.takeWhile (· ≠ '\\')).reverse

/-- The scope after an import, whose alias is the target's last segment if none is given. Under one
alias the latest import counts. -/
def add (s : Scope) (kind : ImportKind) (target : String) (aliasName : Option String) : Scope :=
  let bare := Text.dropLeading '\\' target
  { s with targets := (kind.key (aliasName.getD (lastSegment bare)), bare) :: s.targets }

def imported? (s : Scope) (kind : ImportKind) (name : String) : Option String :=
  s.targets.lookup (kind.key name)

def within (s : Scope) (name : String) : String :=
  match s.space with
  | some space => "\\" ++ space ++ "\\" ++ name
  | none => "\\" ++ name

/-- A function or constant that is not imported: global, unless it waits for the fallback. -/
def fallback (s : Scope) (name : String) : String :=
  match s.space with
  | some _ => name
  | none => "\\" ++ name

/-- What follows the keyword that makes a name relative to the namespace. -/
def relative? (name : String) : Option String :=
  let keyword := "namespace\\".toList
  if (name.toList.take keyword.length).map Char.toLower = keyword then
    some (String.ofList (name.toList.drop keyword.length))
  else none

/-- Resolution of names that are fully qualified, relative, qualified or imported. The first segment
of a qualified name is looked up among the imported classes, whatever the name stands for. -/
def resolve? (s : Scope) (kind : ImportKind) (name : String) : Option String :=
  if name.toList.head? = some '\\' then some name
  else
    match relative? name with
    | some rest => some (s.within rest)
    | none =>
      match Text.splitAtFirst? '\\' name.toList with
      | some (first, rest) =>
        match s.imported? .classLike (String.ofList first) with
        | some target => some ("\\" ++ target ++ "\\" ++ String.ofList rest)
        | none => some (s.within name)
      | none => (s.imported? kind name).map fun target => "\\" ++ target

/-- Names that mean a class by where they stand, and names of types that are no classes. -/
def reservedClassNames : List String :=
  ["self", "parent", "static", "array", "bool", "callable", "false", "float", "int", "iterable",
    "mixed", "never", "null", "object", "string", "true", "void"]

def isReservedClass (name : String) : Bool :=
  reservedClassNames.contains (Text.lowercase name)

def resolveClass (s : Scope) (name : String) : String :=
  if isReservedClass name then name else (s.resolve? .classLike name).getD (s.within name)

def resolveFunction (s : Scope) (name : String) : String :=
  (s.resolve? .function name).getD (s.fallback name)

def isLiteral (name : String) : Bool :=
  ["true", "false", "null"].contains (Text.lowercase name)

/-- Names between double underscores are filled in by the compiler and stand in no namespace. -/
def isMagicConstant (name : String) : Bool :=
  let cs := name.toList
  4 < name.utf8ByteSize && (Text.stripPrefix? ['_', '_'] cs).isSome &&
    (Text.stripSuffix? ['_', '_'] cs).isSome && !cs.contains '\\'

def resolveConstant (s : Scope) (name : String) : String :=
  if isLiteral name || isMagicConstant name then name
  else (s.resolve? .constant name).getD (s.fallback name)

end Scope

end Stubsmith
