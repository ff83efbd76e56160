import Stubsmith.Decl.Basic

namespace Stubsmith

/-- Declarations of one namespace that stand together in the output. -/
structure Group where
  /-- Empty for the global namespace. -/
  space : String
  body : List Decl
deriving Repr, Inhabited

namespace Group

def isGlobal (g : Group) : Bool :=
  g.space == ""

/-- The group as a namespace of its own. -/
def toDecl (g : Group) : Decl :=
  .space (if g.space = "" then none else some g.space) g.body

end Group

end Stubsmith
