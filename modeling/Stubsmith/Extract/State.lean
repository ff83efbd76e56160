import Stubsmith.Decl.Group
import Stubsmith.Hierarchy.Registry
import Stubsmith.Symbol.Selection
import Stubsmith.Symbol.Tally

namespace Stubsmith

/-- What is remembered of a declaration while the walk is inside it. -/
inductive Frame where
  | space (name : String)
  | classLike (kind : ClassKind) (extensible : Bool)
  /-- A guard. Only one on the first level is opened when the walk leaves it. -/
  | guard (firstLevel : Bool)
  | other
deriving DecidableEq, Repr, Inhabited

def Frame.isSpace : Frame → Bool
  | .space _ => true
  | _ => false

/-- The declarations kept so far. -/
structure Extract where
  /-- Namespaces with the functions, constants and globals kept in them, as often as they occur. -/
  spaces : List Group := []
  /-- Statements kept outside of namespaces. -/
  statements : List Decl := []
  /-- What else is kept outside of namespaces. -/
  expressions : List Decl := []
  classLikes : Registry := {}
  tally : Tally := .empty
deriving Inhabited

/-- What a run has found so far, and what it remembers of the declarations that it is inside of. -/
structure ExtractState where
  /-- The declarations around the one at hand, the innermost first. -/
  frames : List Frame := []
  found : Extract := {}
  /-- Whether the walk is inside a declaration that may be kept. -/
  inDeclaration : Bool := false
  /-- Whether the walk is inside a guard. -/
  inGuard : Bool := false
deriving Inhabited

end Stubsmith
