import Stubsmith.Decl.Print
import Stubsmith.Extract.State
import Stubsmith.Hierarchy.Order

namespace Stubsmith

/-- A file that stubs could not be made of, and why. -/
structure Unparsed where
  path : String
  reason : String
deriving DecidableEq, Repr, Inhabited

/-- The stubs as one list of statements, and what is reported about them. -/
structure StubsResult where
  statements : List Decl
  stats : List (SymbolKind × Nat)
  duplicates : List Duplicate
  unparsed : List Unparsed
deriving Repr, Inhabited

namespace Extract

/-- What stands in groups: class-likes first, then the namespaces in the order of the files. -/
def groups (x : Extract) : List Group :=
  x.classLikes.groups ++ x.spaces

/-- Global declarations as a namespace, if there are any. -/
def globalSpace (ds : List Decl) : List Decl :=
  if ds.isEmpty then [] else [.space none ds]

def assemble (x : Extract) : List Decl :=
  if x.groups.all Group.isGlobal then
    x.groups.flatMap Group.body ++ x.statements ++ x.expressions
  else
    x.groups.map Group.toDecl ++ globalSpace x.statements ++ globalSpace x.expressions

/-- The result of a run that found this, and could not read some files. -/
def result (x : Extract) (unparsed : List Unparsed) : StubsResult where
  statements := x.assemble
  stats := x.tally.stats
  duplicates := x.tally.duplicates
  unparsed := unparsed

end Extract

def StubsResult.print (r : StubsResult) (header : Option String) : String :=
  Decl.printFile header r.statements

end Stubsmith
