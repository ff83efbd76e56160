import Stubsmith.Text.Edges

namespace Stubsmith.QualifiedName

/-- The name with one leading backslash in place of however many it has. -/
def globally (name : String) : String :=
  "\\" ++ Text.dropLeading '\\' name

/-- The full name of what is declared as `name` in a namespace, which is empty for the global one.
-/
def inNamespace (space name : String) : String :=
  globally (space ++ "\\" ++ name)

end Stubsmith.QualifiedName
