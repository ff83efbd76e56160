import Stubsmith.Decl.Basic
import Stubsmith.Name.Qualified

namespace Stubsmith

/-- A class-like with its place among the others. -/
structure Descriptor where
  classLike : ClassLike
  /-- The namespace that it is declared in, empty for the global one. -/
  space : String
  fullName : String
  /-- The full names of what it is declared with: interfaces first, then parents, then traits. -/
  dependencies : List String
deriving Repr, Inhabited

namespace Descriptor

/-- The names in the head of a class-like that it depends on. -/
def headNames (h : ClassHead) : List String :=
  match h.kind with
  | .classType => h.interfaces ++ h.parents
  | .interfaceType => h.parents
  | .enumType => h.interfaces
  | .traitType => []

def usedTraits : Decl → List String
  | .traitUse u => u.traits
  | _ => []

def bodyNames (c : ClassLike) : List String :=
  if c.head.kind = .interfaceType then [] else c.body.flatMap usedTraits

def ofClassLike (space : String) (c : ClassLike) : Descriptor where
  classLike := c
  space := space
  fullName := QualifiedName.inNamespace space (c.head.name.getD "")
  dependencies := (headNames c.head ++ bodyNames c).map QualifiedName.globally

def toDecl (d : Descriptor) : Decl :=
  .classLike d.classLike.head d.classLike.body

end Descriptor

/-- Descriptors in their slots, and the slot of each full name. -/
structure Registry where
  descriptors : List Descriptor := []
  index : List (String × Nat) := []
deriving Repr, Inhabited

namespace Registry

def size (r : Registry) : Nat :=
  r.descriptors.length

def slot? (r : Registry) (fullName : String) : Option Nat :=
  r.index.lookup fullName

def get? (r : Registry) (fullName : String) : Option Descriptor :=
  (r.slot? fullName).bind (r.descriptors[·]?)

/-- Registers a descriptor. One whose name is registered already takes the slot of the former. -/
def insert (r : Registry) (d : Descriptor) : Registry :=
  match r.slot? d.fullName with
  | some slot => { r with descriptors := r.descriptors.set slot d }
  | none => ⟨r.descriptors ++ [d], (d.fullName, r.descriptors.length) :: r.index⟩

def insertAll (r : Registry) (ds : List Descriptor) : Registry :=
  ds.foldl insert r

end Registry

end Stubsmith
