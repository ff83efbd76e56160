import Mathlib.Data.Finset.Card
import Stubsmith.Proofs.ByteOrder
import Stubsmith.Proofs.Statistics

namespace Stubsmith

namespace SymbolKey

variable {key : SymbolKey} {keys : List SymbolKey} {n : Nat}

theorem mem_countTable : (key, n) ∈ countTable keys ↔ key ∈ keys ∧ keys.count key = n := by
  rw [countTable, List.mem_map]
  constructor
  · intro h
    obtain ⟨k, hk, heq⟩ := h
    obtain ⟨rfl, rfl⟩ := Prod.mk.inj heq
    exact ⟨mem_sortedSet.1 hk, rfl⟩
  · intro h
    obtain ⟨hmem, rfl⟩ := h
    exact ⟨key, mem_sortedSet.2 hmem, rfl⟩

end SymbolKey

namespace Tally

open SymbolKey

/-- A call of one of the two operations that change a tally. -/
inductive Call where
  | count (kind : SymbolKind) (name : String)
  | retain (kind : SymbolKind) (name : String)
deriving DecidableEq, Repr

namespace Call

def applyTo (t : Tally) : Call → Tally
  | count kind name => (t.count kind name).2
  | retain kind name => t.retain kind name

/-- The symbol that a call counts. -/
def counted : Call → List SymbolKey
  | count kind name => if name = "" then [] else [⟨kind, name⟩]
  | retain .. => []

def retained : Call → List SymbolKey
  | count .. => []
  | retain kind name => [⟨kind, name⟩]

end Call

/-- The tally that some calls lead to from the start. -/
def ofCalls (calls : List Call) : Tally :=
  calls.foldl Call.applyTo empty

/-- The names that were retained under a kind. -/
def retainedNames (calls : List Call) (kind : SymbolKind) : Finset String :=
  (((calls.flatMap Call.retained).filter (·.kind = kind)).map SymbolKey.name).toFinset

variable {kind : SymbolKind} {name : String} {calls : List Call}

theorem mem_retainedNames : name ∈ retainedNames calls kind ↔ .retain kind name ∈ calls := by
  rw [retainedNames, List.mem_toFinset, mem_names_of_kind, List.mem_flatMap]
  constructor
  · intro h
    obtain ⟨call, hcall, hkey⟩ := h
    cases call with
    | count => simp [Call.retained] at hkey
    | retain k n =>
      obtain ⟨rfl, rfl⟩ : kind = k ∧ name = n := by simpa [Call.retained] using hkey
      exact hcall
  · intro h
    exact ⟨_, h, by simp [Call.retained]⟩

theorem ofCalls_concat (calls : List Call) (call : Call) :
    ofCalls (calls ++ [call]) = call.applyTo (ofCalls calls) := by
  simp [ofCalls]

theorem records_ofCalls (calls : List Call) :
    (ofCalls calls).Records (calls.flatMap Call.counted) (calls.flatMap Call.retained) := by
  induction calls using List.reverseRecOn with
  | nil => exact records_empty
  | append_singleton calls call ih =>
    rw [ofCalls_concat, List.flatMap_append, List.flatMap_append]
    cases call with
    | count kind name =>
      have h := Request.records_count kind name ih
      simpa [Call.counted, Call.retained, Call.applyTo] using h
    | retain kind name =>
      have h : ((ofCalls calls).retain kind name).Records _ _ := Request.records_retain ih
      simpa [Call.counted, Call.retained, Call.applyTo] using h

theorem Call.count_counted (call : Call) (kind : SymbolKind) (name : String) :
    call.counted.count ⟨kind, name⟩ =
      if name = "" then 0 else if call = .count kind name then 1 else 0 := by
  cases call with
  | retain => simp [counted]
  | count k n =>
    by_cases hn : n = ""
    · by_cases hname : name = ""
      · simp [counted, hn, hname]
      · have hne : n ≠ name := by
          rintro rfl
          exact hname hn
        simp [counted, hn, hname, Ne.symm hname]
    · by_cases hsame : k = kind ∧ n = name
      · obtain ⟨rfl, rfl⟩ := hsame
        simp [counted, hn]
      · simp [counted, hn, hsame]

theorem count_flatMap_counted (calls : List Call) (kind : SymbolKind) (name : String) :
    (calls.flatMap Call.counted).count ⟨kind, name⟩ =
      if name = "" then 0 else calls.count (.count kind name) := by
  induction calls with
  | nil => simp
  | cons call calls ih =>
    rw [List.flatMap_cons, List.count_append, ih, Call.count_counted, List.count_cons]
    by_cases hname : name = ""
    · simp [hname]
    · simp only [hname, if_false, beq_iff_eq]
      omega

theorem mem_flatMap_counted :
    ⟨kind, name⟩ ∈ calls.flatMap Call.counted ↔ name ≠ "" ∧ .count kind name ∈ calls := by
  rw [← List.count_pos_iff, count_flatMap_counted]
  by_cases hname : name = "" <;> simp [hname, List.count_pos_iff]

theorem occurrences_ofCalls (calls : List Call) (kind : SymbolKind) (name : String) :
    (ofCalls calls).occurrences kind name =
      if name = "" then 0 else calls.count (.count kind name) := by
  rw [occurrences_eq (records_ofCalls calls).counts, count_flatMap_counted]

theorem retainedCount_ofCalls (calls : List Call) (kind : SymbolKind) :
    (ofCalls calls).retainedCount kind = (retainedNames calls kind).card := by
  have hcount : nameCount (ofCalls calls).retained kind =
      nameCount (calls.flatMap Call.retained) kind := by
    rw [(records_ofCalls calls).retained]
    apply Nat.le_antisymm
    · exact nameCount_le fun name h => mem_sortedSet.1 h
    · exact nameCount_le fun name h => mem_sortedSet.2 h
  rw [retainedCount_eq, hcount, nameCount, retainedNames, List.card_toFinset]

theorem mem_duplicates {t : Tally} {keys : List SymbolKey} (h : t.counts = countTable keys)
    {d : Duplicate} : d ∈ t.duplicates ↔ 1 < d.count ∧ t.occurrences d.kind d.name = d.count := by
  rw [occurrences_eq h, duplicates, h, List.mem_filterMap]
  constructor
  · intro hmem
    obtain ⟨⟨key, n⟩, hmem, hd⟩ := hmem
    obtain ⟨-, hcount⟩ := mem_countTable.1 hmem
    obtain ⟨hn, rfl⟩ := Option.ite_some_none_eq_some.1 hd
    exact ⟨hn, hcount⟩
  · intro hd
    obtain ⟨hlt, hcount⟩ := hd
    have hmem : ⟨d.kind, d.name⟩ ∈ keys := List.count_pos_iff.1 (by omega)
    exact ⟨(⟨d.kind, d.name⟩, d.count), mem_countTable.2 ⟨hmem, hcount⟩, by simp [hlt]⟩

/-- Duplicates are reported in the order of their kinds and, within a kind, of the bytes of their
names. -/
theorem pairwise_duplicates (t : Tally) :
    t.duplicates.Pairwise fun a b => a.kind.rank < b.kind.rank ∨
      a.kind = b.kind ∧ a.name.toUTF8.data.toList < b.name.toUTF8.data.toList := by
  rw [duplicates, List.pairwise_filterMap]
  apply (List.pairwise_map.1 t.counts_sorted).imp
  rintro ⟨j, m⟩ ⟨k, n⟩ hlt a ha b hb
  obtain ⟨-, rfl⟩ := Option.ite_some_none_eq_some.1 ha
  obtain ⟨-, rfl⟩ := Option.ite_some_none_eq_some.1 hb
  exact hlt.imp_right fun h => ⟨h.1, Text.bytes_lt_of_lt h.2⟩

/-- After any calls a tally answers for the multiset of the symbols counted, the empty name apart,
and for the set of those retained; and it tells of a further call whether that counts a symbol
first. -/
theorem ofCalls_multiset (calls : List Call) :
    (∀ kind name, (ofCalls calls).occurrences kind name =
        if name = "" then 0 else calls.count (.count kind name)) ∧
      (∀ kind name, ((ofCalls calls).count kind name).1 ↔
        name ≠ "" ∧ .count kind name ∉ calls) ∧
      (∃ names : SymbolKind → Finset String,
        (∀ kind name, name ∈ names kind ↔ .retain kind name ∈ calls) ∧
          (ofCalls calls).stats.map Prod.fst = SymbolKind.all ∧
          ∀ kind, (ofCalls calls).stats.lookup kind = some (names kind).card) ∧
      ((ofCalls calls).duplicates.Pairwise fun a b => a.kind.rank < b.kind.rank ∨
        a.kind = b.kind ∧ a.name.toUTF8.data.toList < b.name.toUTF8.data.toList) ∧
      ∀ kind name n, ⟨kind, name, n⟩ ∈ (ofCalls calls).duplicates ↔
        1 < n ∧ (ofCalls calls).occurrences kind name = n := by
  refine ⟨occurrences_ofCalls calls, ?_, ?_, pairwise_duplicates _, ?_⟩
  · intro kind name
    have hmem : ⟨kind, name⟩ ∈ calls.flatMap Call.counted ↔ _ := mem_flatMap_counted
    rw [count_first (records_ofCalls calls).counts]
    simp only [Bool.and_eq_true, decide_eq_true_eq, Bool.not_eq_true', List.contains_eq_mem,
      decide_eq_false_iff_not, hmem]
    tauto
  · refine ⟨retainedNames calls, fun kind name => mem_retainedNames, rfl, ?_⟩
    intro kind
    rw [lookup_stats, ← retainedCount_eq, retainedCount_ofCalls]
  · intro kind name n
    exact mem_duplicates (records_ofCalls calls).counts

end Tally

end Stubsmith
