import Mathlib.Data.List.Induction
import Stubsmith.Symbol.Tally

namespace Stubsmith

namespace SymbolKey

/-- The keys of a list, each once, in the order of keys. -/
def sortedSet (keys : List SymbolKey) : List SymbolKey :=
  keys.foldl (fun set key => insert key set) []

/-- The keys of a list with the numbers of their occurrences. -/
def countTable (keys : List SymbolKey) : List (SymbolKey × Nat) :=
  (sortedSet keys).map fun key => (key, keys.count key)

variable {key : SymbolKey} {keys more : List SymbolKey}

theorem sortedSet_concat (keys : List SymbolKey) (key : SymbolKey) :
    sortedSet (keys ++ [key]) = insert key (sortedSet keys) := by
  simp [sortedSet]

theorem mem_sortedSet : key ∈ sortedSet keys ↔ key ∈ keys := by
  induction keys using List.reverseRecOn with
  | nil => simp [sortedSet]
  | append_singleton keys k ih => simp [sortedSet_concat, mem_insert, ih, or_comm]

theorem pairwise_sortedSet (keys : List SymbolKey) : (sortedSet keys).Pairwise (· < ·) := by
  induction keys using List.reverseRecOn with
  | nil => simp [sortedSet]
  | append_singleton keys k ih =>
    rw [sortedSet_concat]
    exact pairwise_insert ih

theorem nodup_of_pairwise (h : keys.Pairwise (· < ·)) : keys.Nodup := by
  apply h.imp
  intro a b hlt heq
  exact lt_irrefl b (heq ▸ hlt)

/-- Strictly increasing lists are the same if they hold the same keys. -/
theorem eq_of_mem_iff (hkeys : keys.Pairwise (· < ·)) (hmore : more.Pairwise (· < ·))
    (h : ∀ key, key ∈ keys ↔ key ∈ more) : keys = more := by
  have hperm : keys.Perm more :=
    (List.perm_ext_iff_of_nodup (nodup_of_pairwise hkeys) (nodup_of_pairwise hmore)).2 h
  apply hperm.eq_of_pairwise _ hkeys hmore
  intro a b _ _ hab hba
  exact absurd (lt_trans hab hba) (lt_irrefl a)

theorem sortedSet_congr (h : ∀ key, key ∈ keys ↔ key ∈ more) : sortedSet keys = sortedSet more := by
  apply eq_of_mem_iff (pairwise_sortedSet keys) (pairwise_sortedSet more)
  intro key
  rw [mem_sortedSet, mem_sortedSet, h]

theorem sortedSet_filter (p : SymbolKey → Bool) (keys : List SymbolKey) :
    sortedSet (keys.filter p) = (sortedSet keys).filter p := by
  apply eq_of_mem_iff (pairwise_sortedSet _) ((pairwise_sortedSet keys).filter p)
  intro key
  rw [mem_sortedSet, List.mem_filter, List.mem_filter, mem_sortedSet]

theorem countTable_filter (p : SymbolKey → Bool) (keys : List SymbolKey) :
    countTable (keys.filter p) = (countTable keys).filter fun e => p e.1 := by
  rw [countTable, countTable, sortedSet_filter, List.filter_map]
  apply List.map_congr_left
  intro key hkey
  obtain ⟨-, hp⟩ := List.mem_filter.1 hkey
  rw [List.count_filter hp]

/-- A table does not depend on the order of the symbols that are counted. -/
theorem countTable_perm (h : keys.Perm more) : countTable keys = countTable more := by
  rw [countTable, countTable, sortedSet_congr fun key => h.mem_iff]
  apply List.map_congr_left
  intro key _
  rw [h.count_eq]

/-- Adding one under a key of a table whose entries are the values of a function. -/
theorem bump_map {l : List SymbolKey} (hl : l.Pairwise (· < ·)) (f : SymbolKey → Nat)
    (hf : key ∉ l → f key = 0) :
    bump key (l.map fun k => (k, f k)) =
      (insert key l).map fun k => (k, if k = key then f k + 1 else f k) := by
  induction l with
  | nil => simp [bump, insert, hf]
  | cons k rest ih =>
    obtain ⟨hk, hrest⟩ := List.pairwise_cons.1 hl
    have keep {l : List SymbolKey} (h : key ∉ l) :
        (l.map fun k => (k, if k = key then f k + 1 else f k)) = l.map fun k => (k, f k) := by
      apply List.map_congr_left
      intro x hx
      have hne : x ≠ key := by
        intro hxk
        exact h (hxk ▸ hx)
      simp [hne]
    simp only [List.map_cons, bump, insert]
    by_cases heq : key = k
    · subst heq
      have hnot : key ∉ rest := by
        intro h
        exact lt_irrefl key (hk key h)
      simp [keep hnot]
    by_cases hlt : key < k
    · have hnot : key ∉ k :: rest := by
        intro h
        rcases List.mem_cons.1 h with h | h
        · exact heq h
        · exact lt_irrefl key (lt_trans hlt (hk key h))
      have hrest' : key ∉ rest := by
        intro h
        exact hnot (List.mem_cons_of_mem _ h)
      simp [heq, hlt, hf hnot, keep hrest', Ne.symm heq]
    · have hf' : key ∉ rest → f key = 0 := by
        intro h
        exact hf (by simp [heq, h])
      simp [heq, hlt, ih hrest hf', Ne.symm heq]

theorem bump_countTable (keys : List SymbolKey) (key : SymbolKey) :
    bump key (countTable keys) = countTable (keys ++ [key]) := by
  rw [countTable, bump_map (pairwise_sortedSet keys), countTable, sortedSet_concat]
  · apply List.map_congr_left
    intro k _
    by_cases h : k = key
    · simp [h]
    · simp [h, Ne.symm h]
  · intro h
    exact List.count_eq_zero.2 fun hk => h (mem_sortedSet.2 hk)

theorem find_map (l : List SymbolKey) (f : SymbolKey → Nat) :
    find (l.map fun k => (k, f k)) key = if key ∈ l then f key else 0 := by
  induction l with
  | nil => simp [find]
  | cons k rest ih =>
    by_cases h : k = key
    · simp [find, h]
    · simp [find, h, ih, Ne.symm h]

theorem find_countTable : find (countTable keys) key = keys.count key := by
  rw [countTable, find_map]
  split
  · rfl
  · next h => exact (List.count_eq_zero.2 fun hk => h (mem_sortedSet.2 hk)).symm

end SymbolKey

namespace Tally

open SymbolKey

variable {t : Tally} {kind : SymbolKind} {name : String} {keys : List SymbolKey}

theorem occurrences_eq (h : t.counts = countTable keys) :
    t.occurrences kind name = keys.count ⟨kind, name⟩ := by
  rw [occurrences, h, find_countTable]

theorem count_first (h : t.counts = countTable keys) :
    (t.count kind name).1 = (name ≠ "" && !keys.contains ⟨kind, name⟩) := by
  by_cases hname : name = ""
  · simp [count, hname]
  · by_cases hmem : ⟨kind, name⟩ ∈ keys <;>
      simp [count, hname, occurrences_eq h, List.count_eq_zero, hmem]

theorem counts_count (h : t.counts = countTable keys) :
    (t.count kind name).2.counts =
      countTable (keys ++ if name = "" then [] else [⟨kind, name⟩]) := by
  by_cases hname : name = ""
  · simp [count, hname, h]
  · simp [count, hname, h, bump_countTable]

@[simp]
theorem retained_count (t : Tally) (kind : SymbolKind) (name : String) :
    (t.count kind name).2.retained = t.retained := by
  by_cases hname : name = "" <;> simp [count, hname]

@[simp]
theorem counts_retain (t : Tally) (kind : SymbolKind) (name : String) :
    (t.retain kind name).counts = t.counts :=
  rfl

theorem retained_retain (h : t.retained = sortedSet keys) :
    (t.retain kind name).retained = sortedSet (keys ++ [⟨kind, name⟩]) := by
  rw [sortedSet_concat, ← h]
  rfl

end Tally

end Stubsmith
