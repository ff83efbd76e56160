import Stubsmith.Symbol.Kind

namespace Stubsmith

/-- What a symbol is counted under. -/
structure SymbolKey where
  kind : SymbolKind
  name : String
deriving DecidableEq, Repr, Inhabited

namespace SymbolKey

instance : LT SymbolKey where
  lt a b := a.kind.rank < b.kind.rank ∨ a.kind = b.kind ∧ a.name < b.name

instance (a b : SymbolKey) : Decidable (a < b) :=
  inferInstanceAs (Decidable (_ ∨ _))

theorem lt_trans {a b c : SymbolKey} (hab : a < b) (hbc : b < c) : a < c := by
  rcases hab with hab | ⟨hab, hab'⟩ <;> rcases hbc with hbc | ⟨hbc, hbc'⟩
  · exact .inl (Nat.lt_trans hab hbc)
  · exact .inl (hbc ▸ hab)
  · exact .inl (hab ▸ hbc)
  · exact .inr ⟨hab.trans hbc, String.lt_trans hab' hbc'⟩

theorem lt_irrefl (a : SymbolKey) : ¬a < a := by
  intro h
  rcases h with h | ⟨_, h⟩
  · exact Nat.lt_irrefl _ h
  · exact String.lt_irrefl _ h

theorem lt_of_not_lt {a b : SymbolKey} (hne : a ≠ b) (h : ¬a < b) : b < a := by
  obtain ⟨j, x⟩ := a
  obtain ⟨k, y⟩ := b
  by_cases hk : j = k
  · subst hk
    have hxy : x ≠ y := fun h => hne (by rw [h])
    have hle : y ≤ x := String.not_lt.1 fun hlt => h (.inr ⟨rfl, hlt⟩)
    exact .inr ⟨rfl, String.not_le.1 fun hle' => hxy (String.le_antisymm hle' hle)⟩
  · have hrank : j.rank ≠ k.rank := fun hr => hk (SymbolKind.rank_injective hr)
    have hnlt : ¬j.rank < k.rank := fun hr => h (.inl hr)
    exact .inl (show k.rank < j.rank by omega)

/-- Adds a key in its place, once. -/
def insert (key : SymbolKey) : List SymbolKey → List SymbolKey
  | [] => [key]
  | k :: rest =>
    if key = k then k :: rest
    else if key < k then key :: k :: rest
    else k :: insert key rest

theorem mem_insert {key x : SymbolKey} {l : List SymbolKey} :
    x ∈ insert key l ↔ x = key ∨ x ∈ l := by
  induction l with
  | nil => simp [insert]
  | cons k rest ih =>
    simp only [insert]
    split
    · next h => simp [h]
    · split
      · simp
      · simp only [List.mem_cons, ih]
        exact or_left_comm

theorem pairwise_insert {key : SymbolKey} {l : List SymbolKey} (h : l.Pairwise (· < ·)) :
    (insert key l).Pairwise (· < ·) := by
  induction l with
  | nil => simp [insert]
  | cons k rest ih =>
    have hk := (List.pairwise_cons.1 h).1
    simp only [insert]
    split
    · exact h
    · next hne =>
      split
      · next hlt =>
        refine List.pairwise_cons.2 ⟨fun x hx => ?_, h⟩
        rcases List.mem_cons.1 hx with rfl | hx
        · exact hlt
        · exact lt_trans hlt (hk x hx)
      · next hnlt =>
        refine List.pairwise_cons.2 ⟨fun x hx => ?_, ih h.of_cons⟩
        rcases mem_insert.1 hx with rfl | hx
        · exact lt_of_not_lt hne hnlt
        · exact hk x hx

def bump (key : SymbolKey) : List (SymbolKey × Nat) → List (SymbolKey × Nat)
  | [] => [(key, 1)]
  | (k, n) :: rest =>
    if key = k then (k, n + 1) :: rest
    else if key < k then (key, 1) :: (k, n) :: rest
    else (k, n) :: bump key rest

theorem map_fst_bump (key : SymbolKey) (l : List (SymbolKey × Nat)) :
    (bump key l).map Prod.fst = insert key (l.map Prod.fst) := by
  induction l with
  | nil => rfl
  | cons e rest ih =>
    simp only [bump, insert, List.map_cons]
    split
    · rfl
    · split
      · rfl
      · simp [ih]

/-- The number under a key, zero where there is none. -/
def find : List (SymbolKey × Nat) → SymbolKey → Nat
  | [], _ => 0
  | (k, n) :: rest, key => if k = key then n else find rest key

end SymbolKey

end Stubsmith
