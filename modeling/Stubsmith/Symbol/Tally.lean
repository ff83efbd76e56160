import Stubsmith.Symbol.Key

namespace Stubsmith

/-- A symbol that was declared more than once. -/
structure Duplicate where
  kind : SymbolKind
  name : String
  count : Nat
deriving DecidableEq, Repr, Inhabited

/-- How often each symbol was declared, and which symbols were kept. -/
structure Tally where
  counts : List (SymbolKey × Nat) := []
  retained : List SymbolKey := []
  counts_sorted : (counts.map Prod.fst).Pairwise (· < ·) := by simp
  retained_sorted : retained.Pairwise (· < ·) := by simp

namespace Tally

def empty : Tally := {}

instance : Inhabited Tally := ⟨empty⟩

def occurrences (t : Tally) (kind : SymbolKind) (name : String) : Nat :=
  SymbolKey.find t.counts ⟨kind, name⟩

/-- Counts one declaration and tells whether it is the symbol's first. Nothing is counted under the
empty name, which is never a first. -/
def count (t : Tally) (kind : SymbolKind) (name : String) : Bool × Tally :=
  if name = "" then (false, t)
  else
    (t.occurrences kind name == 0,
      { t with
        counts := SymbolKey.bump ⟨kind, name⟩ t.counts
        counts_sorted := by
          rw [SymbolKey.map_fst_bump]
          exact SymbolKey.pairwise_insert t.counts_sorted })

/-- Notes that a symbol is in the output. -/
def retain (t : Tally) (kind : SymbolKind) (name : String) : Tally :=
  { t with
    retained := SymbolKey.insert ⟨kind, name⟩ t.retained
    retained_sorted := SymbolKey.pairwise_insert t.retained_sorted }

/-- How many symbols of a kind are in the output. -/
def retainedCount (t : Tally) (kind : SymbolKind) : Nat :=
  t.retained.countP (·.kind = kind)

/-- The number of symbols in the output, for every kind in the order of reports. -/
def stats (t : Tally) : List (SymbolKind × Nat) :=
  SymbolKind.all.map fun kind => (kind, t.retainedCount kind)

/-- The symbols counted more than once, in the order of their keys. -/
def duplicates (t : Tally) : List Duplicate :=
  t.counts.filterMap fun (key, n) => if 1 < n then some ⟨key.kind, key.name, n⟩ else none

end Tally

end Stubsmith
