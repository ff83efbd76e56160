import Stubsmith.Decl.Basic
import Stubsmith.Text.Blank
import Stubsmith.Text.Edges

namespace Stubsmith

/-- Which symbols a run keeps. Globals are selected by whether a doc comment stands at their
assignment. -/
structure Selection where
  functions : Bool := false
  classes : Bool := false
  traits : Bool := false
  interfaces : Bool := false
  documentedGlobals : Bool := false
  undocumentedGlobals : Bool := false
  constants : Bool := false
  enums : Bool := false
deriving DecidableEq, Repr, Inhabited

namespace Selection

def empty : Selection := {}

def all : Selection :=
  ⟨true, true, true, true, true, true, true, true⟩

/-- Everything but globals without a doc comment. -/
def standard : Selection :=
  { all with undocumentedGlobals := false }

def union (a b : Selection) : Selection where
  functions := a.functions || b.functions
  classes := a.classes || b.classes
  traits := a.traits || b.traits
  interfaces := a.interfaces || b.interfaces
  documentedGlobals := a.documentedGlobals || b.documentedGlobals
  undocumentedGlobals := a.undocumentedGlobals || b.undocumentedGlobals
  constants := a.constants || b.constants
  enums := a.enums || b.enums

def hasClassKind (s : Selection) : ClassKind → Bool
  | .classType => s.classes
  | .interfaceType => s.interfaces
  | .traitType => s.traits
  | .enumType => s.enums

def hasGlobals (s : Selection) : Bool :=
  s.documentedGlobals || s.undocumentedGlobals

/-- Whether globals are kept that do, or do not, have a doc comment. -/
def hasGlobal (s : Selection) (documented : Bool) : Bool :=
  if documented then s.documentedGlobals else s.undocumentedGlobals

/-- The fields in the order of their bits, least first. -/
def flags (s : Selection) : List Bool :=
  [s.functions, s.classes, s.traits, s.interfaces, s.documentedGlobals, s.undocumentedGlobals,
    s.constants, s.enums]

def toBits (s : Selection) : Nat :=
  s.flags.foldr (fun flag n => flag.toNat + 2 * n) 0

/-- The selection whose number has these low bits. -/
def ofBits (n : Nat) : Selection where
  functions := n.testBit 0
  classes := n.testBit 1
  traits := n.testBit 2
  interfaces := n.testBit 3
  documentedGlobals := n.testBit 4
  undocumentedGlobals := n.testBit 5
  constants := n.testBit 6
  enums := n.testBit 7

theorem ofBits_toBits (s : Selection) : ofBits s.toBits = s := by
  rcases s with ⟨a, b, c, d, e, f, g, h⟩
  revert a b c d e f g h
  decide

/-- The selection with one name, as read from an option: surrounding white space, the case of
letters and the choice between underscores and hyphens do not matter. -/
def ofName? (name : String) : Option Selection :=
  let plain := (Text.lowercase (Text.trim name)).toList.map fun c => if c = '_' then '-' else c
  match String.ofList plain with
  | "functions" => some { functions := true }
  | "classes" => some { classes := true }
  | "interfaces" => some { interfaces := true }
  | "traits" => some { traits := true }
  | "enums" => some { enums := true }
  | "documented-globals" => some { documentedGlobals := true }
  | "undocumented-globals" => some { undocumentedGlobals := true }
  | "globals" => some { documentedGlobals := true, undocumentedGlobals := true }
  | "constants" => some { constants := true }
  | "all" => some all
  | _ => none

/-- The union of named selections, or the first name that is unknown. -/
def unionOfNames (names : List String) : Except String Selection :=
  names.foldlM (fun s name =>
    match ofName? name with
    | some t => .ok (s.union t)
    | none => .error name) empty

/-- The union of named selections, nothing for an empty list, so that a caller can fall back. -/
def ofNames? (names : List String) : Except String (Option Selection) :=
  (unionOfNames names).map fun s => if s = empty then none else some s

end Selection

/-- Choices about how kept declarations are rewritten. -/
structure Options where
  /-- Every kept global gets the value null. -/
  nullifyGlobals : Bool := false
  /-- Private members stay, and protected members of what has no subtypes. -/
  keepInaccessible : Bool := false
deriving DecidableEq, Repr, Inhabited

end Stubsmith
