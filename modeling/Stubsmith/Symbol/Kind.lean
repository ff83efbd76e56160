import Stubsmith.Decl.Basic

namespace Stubsmith

/-- The kinds of symbols that a run counts and reports, in the order of its reports. -/
inductive SymbolKind where
  | functions
  | classes
  | interfaces
  | traits
  | enums
  | constants
  | globals
deriving DecidableEq, Repr, Inhabited

namespace SymbolKind

def all : List SymbolKind :=
  [functions, classes, interfaces, traits, enums, constants, globals]

/-- The place of a kind in reports. -/
def rank : SymbolKind → Nat
  | functions => 0
  | classes => 1
  | interfaces => 2
  | traits => 3
  | enums => 4
  | constants => 5
  | globals => 6

theorem rank_injective {j k : SymbolKind} (h : j.rank = k.rank) : j = k := by
  cases j <;> cases k <;> simp_all [rank]

def name : SymbolKind → String
  | functions => "functions"
  | classes => "classes"
  | interfaces => "interfaces"
  | traits => "traits"
  | enums => "enums"
  | constants => "constants"
  | globals => "globals"

end SymbolKind

/-- The kind of symbol that a class-like declares. -/
def ClassKind.symbolKind : ClassKind → SymbolKind
  | .classType => .classes
  | .interfaceType => .interfaces
  | .traitType => .traits
  | .enumType => .enums

end Stubsmith
