import Stubsmith.Proofs.FlatWalk
import Stubsmith.Proofs.Settled

namespace Stubsmith

/-- Whether a doc comment stands at the assignment that a candidate is. -/
def Candidate.isDocumented (c : Candidate) : Bool :=
  match c.decl with
  | .assign a => a.doc.isSome
  | _ => false

namespace Request

open Candidate

variable {r : Request} {c : Candidate} {cs : List Candidate} {seen : List SymbolKey}
  {key : SymbolKey}

/-- Whether a symbol of a candidate is kept when `seen` have been counted before it. -/
def keeps (r : Request) (seen : List SymbolKey) (c : Candidate) (key : SymbolKey) : Bool :=
  if key.kind = .globals then r.selection.hasGlobal c.isDocumented else r.isNew seen key

theorem keeps_of_ne (hkind : key.kind ≠ .globals) : r.keeps seen c key = r.isNew seen key :=
  if_neg hkind

theorem keeps_global (name : String) :
    r.keeps seen c ⟨.globals, name⟩ = r.selection.hasGlobal c.isDocumented :=
  if_pos rfl

theorem keeps_append {more : List SymbolKey} :
    r.keeps (seen ++ more) c key ↔ r.keeps seen c key ∧ (key.kind ≠ .globals → key ∉ more) := by
  by_cases hkind : key.kind = .globals
  · simp [keeps, hkind]
  · rw [keeps_of_ne hkind, keeps_of_ne hkind, isNew_append]
    simp [hkind]

/-- Of the items of a constant statement one is kept for each new symbol. -/
theorem mem_newItems {space : String} {items : List ConstItem} :
    key ∈ itemSymbols space (r.newItems space seen items) ↔
      key ∈ itemSymbols space items ∧ r.isNew seen key := by
  constructor
  · intro h
    obtain ⟨hnew, hmem⟩ := (newItems_new space seen items).1 key h
    exact ⟨hmem, hnew⟩
  · intro h
    obtain ⟨hmem, hnew⟩ := h
    induction items generalizing seen with
    | nil => cases hmem
    | cons item items ih =>
      let first : SymbolKey := ⟨.constants, QualifiedName.inNamespace space item.name⟩
      rw [newItems, itemSymbols, List.map_append, List.mem_append]
      by_cases hfirst : key = first
      · left
        subst hfirst
        rw [if_pos hnew]
        exact List.mem_singleton_self _
      · right
        have hlater : key ∈ itemSymbols space items := by
          rw [itemSymbols_cons] at hmem
          exact (List.mem_cons.1 hmem).resolve_left hfirst
        exact ih hlater (isNew_append.2 ⟨hnew, by simpa using hfirst⟩)

/-- A candidate of one symbol, which is kept if it is new. -/
theorem mem_symbols_single (k : SymbolKey) (stub : Decl) (hk : k.kind ≠ .globals)
    (hsymbols : c.symbols = [k]) (hstub : ({ c with decl := stub } : Candidate).symbols = [k])
    (hkept : r.stub? seen c = if c.symbols.any (r.isNew seen) then some stub else none) :
    key ∈ (r.kept? seen c).toList.flatMap symbols ↔ key ∈ c.symbols ∧ r.keeps seen c key := by
  rw [kept?, hkept, hsymbols, List.mem_singleton]
  by_cases hkey : key = k
  · subst hkey
    rw [keeps_of_ne hk]
    cases hnew : r.isNew seen key <;> simp [hnew, hstub]
  · cases hnew : r.isNew seen k <;> simp [hnew, hstub, hkey]

theorem mem_symbols_const {k : ConstDecl} (hc : c.decl = .const k) :
    key ∈ (r.kept? seen c).toList.flatMap symbols ↔ key ∈ c.symbols ∧ r.keeps seen c key := by
  have hsymbols : c.symbols = itemSymbols c.space k.items := by
    rw [symbols, hc]
    rfl
  have hkept : (r.kept? seen c).toList.flatMap symbols =
      itemSymbols c.space (r.newItems c.space seen k.items) := by
    cases hitems : r.newItems c.space seen k.items <;>
      simp [kept?, stub?, hc, hitems, symbols, itemSymbols]
  rw [hkept, hsymbols, mem_newItems]
  apply and_congr_right
  intro hmem
  obtain ⟨item, -, rfl⟩ := List.mem_map.1 hmem
  rw [keeps_of_ne (by simp)]

/-- A global is kept for what stands above it, whatever was counted before. -/
theorem mem_symbols_global {a : Assignment} {name : String} (hc : c.decl = .assign a)
    (hguard : c.guarded = false) (htarget : plainTarget a.target = .plain name) :
    key ∈ (r.kept? seen c).toList.flatMap symbols ↔ key ∈ c.symbols ∧ r.keeps seen c key := by
  have hplain : plainTarget (.plain name) = .plain name := rfl
  have hsymbols : c.symbols = [⟨.globals, name⟩] := by simp [symbols, hc, hguard, htarget]
  rw [hsymbols, List.mem_singleton]
  by_cases hkey : key = ⟨.globals, name⟩
  · subst hkey
    rw [keeps_global]
    cases hsel : r.selection.hasGlobal a.doc.isSome <;>
      simp [kept?, stub?, symbols, hc, hguard, htarget, hplain, hsel, isDocumented]
  · cases hsel : r.selection.hasGlobal a.doc.isSome <;>
      simp [kept?, stub?, symbols, hc, hguard, htarget, hplain, hsel, hkey]

/-- The symbols of a candidate that are kept. -/
theorem mem_symbols_kept? : key ∈ (r.kept? seen c).toList.flatMap symbols ↔
    key ∈ c.symbols ∧ r.keeps seen c key := by
  cases hc : c.decl with
  | function h body =>
    refine mem_symbols_single ⟨.functions, QualifiedName.inNamespace c.space h.name⟩
      (.function h []) (by simp) ?_ ?_ ?_
    · simp [symbols, hc]
    · simp [symbols]
    · simp only [stub?, hc]
  | classLike h body =>
    cases hname : h.name with
    | none => simp [kept?, stub?, symbols, hc, hname]
    | some name =>
      refine mem_symbols_single ⟨h.kind.symbolKind, QualifiedName.inNamespace c.space name⟩
        (.classLike h (r.stubBody h body)) (symbolKind_ne_globals h.kind) ?_ ?_ ?_
      · simp [symbols, hc, hname]
      · simp [symbols, hname]
      · simp only [stub?, hc]
  | define d =>
    cases hname : d.name with
    | none => simp [kept?, stub?, symbols, hc, hname]
    | some name =>
      refine mem_symbols_single ⟨.constants, QualifiedName.globally name⟩ (.define d) (by simp)
        ?_ ?_ ?_
      · simp [symbols, hc, hname]
      · simp [symbols, hname]
      · simp only [stub?, hc]
  | const k => exact mem_symbols_const hc
  | assign a =>
    cases hguard : c.guarded with
    | true => simp [kept?, stub?, symbols, hc, hguard]
    | false =>
      cases htarget : plainTarget a.target with
      | plain name => exact mem_symbols_global hc hguard htarget
      | globalsEntry entry literal => simp [kept?, stub?, symbols, hc, hguard, htarget]
      | place text => simp [kept?, stub?, symbols, hc, hguard, htarget]
  | _ => simp [kept?, stub?, symbols, hc]

/-- The symbols that are kept of candidates. -/
theorem mem_symbols_keptFrom : key ∈ (r.keptFrom seen cs).flatMap symbols ↔
    ∃ c ∈ cs, key ∈ c.symbols ∧ r.keeps seen c key := by
  induction cs generalizing seen with
  | nil => simp [keptFrom]
  | cons c cs ih =>
    rw [keptFrom, List.flatMap_append, List.mem_append, mem_symbols_kept?, ih]
    simp only [keeps_append, List.exists_mem_cons_iff]
    constructor
    · intro h
      rcases h with h | ⟨d, hd, hkey, hkeeps, -⟩
      · exact .inl h
      · exact .inr ⟨d, hd, hkey, hkeeps⟩
    · intro h
      rcases h with h | ⟨d, hd, hkey, hkeeps⟩
      · exact .inl h
      · by_cases hlate : key.kind ≠ .globals → key ∉ r.counted c
        · exact .inr ⟨d, hd, hkey, hkeeps, hlate⟩
        -- it was counted before, and kept there
        · simp only [Classical.not_imp, not_not] at hlate
          obtain ⟨hkind, hcounted⟩ := hlate
          rw [keeps_of_ne hkind] at hkeeps ⊢
          exact .inl ⟨(List.mem_filter.1 hcounted).1, hkeeps⟩

theorem mem_retained_extract {files : List (List Decl)}
    (hfiles : ∀ ds ∈ files, Decl.fitsAll .file ds) :
    key ∈ (r.extract files).tally.retained ↔
      ∃ c ∈ Decl.candidatesFrom 0 files.flatten, key ∈ c.symbols ∧ r.keeps [] c key := by
  rw [(follows_extract (r := r) hfiles).2.tally.retained, SymbolKey.mem_sortedSet,
    mem_symbols_keptFrom]

end Request

end Stubsmith
