import Stubsmith.Name.Qualified
import Stubsmith.Symbol.Key

namespace Stubsmith

/-- Whether a symbol exists already. Names have their leading backslash, those of globals apart. -/
abbrev Environment := SymbolKind → String → Bool

/-- The environment in which nothing exists. -/
def Environment.empty : Environment := fun _ _ => false

/-- The form under which a known symbol is compared: names of functions and class-likes without
regard to case, names of globals without dollar signs, all others with one leading backslash. -/
def SymbolKey.normalized (kind : SymbolKind) (name : String) : SymbolKey :=
  match kind with
  | .globals => ⟨kind, Text.dropLeading '$' name⟩
  | .constants => ⟨kind, QualifiedName.globally name⟩
  | _ => ⟨kind, Text.lowercase (QualifiedName.globally name)⟩

structure KnownSymbols where
  keys : List SymbolKey := []
deriving DecidableEq, Repr, Inhabited

namespace KnownSymbols

def insert (known : KnownSymbols) (kind : SymbolKind) (name : String) : KnownSymbols :=
  ⟨SymbolKey.insert (.normalized kind name) known.keys⟩

def size (known : KnownSymbols) : Nat :=
  known.keys.length

def ofList (entries : List (SymbolKind × String)) : KnownSymbols :=
  entries.foldl (fun known (kind, name) => known.insert kind name) {}

/-- The environment in which exactly the known symbols exist. -/
def environment (known : KnownSymbols) : Environment :=
  fun kind name => known.keys.contains (.normalized kind name)

end KnownSymbols

end Stubsmith
