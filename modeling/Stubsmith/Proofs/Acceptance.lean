import Stubsmith.Proofs.FlatPass

namespace Stubsmith

/-- A tally in which `seen` were counted and `kept` were kept. -/
structure Tally.Records (t : Tally) (seen kept : List SymbolKey) : Prop where
  counts : t.counts = SymbolKey.countTable seen
  retained : t.retained = SymbolKey.sortedSet kept

theorem Tally.records_empty : Tally.empty.Records [] [] :=
  ⟨rfl, rfl⟩

theorem Tally.Records.unique {t u : Tally} {seen kept : List SymbolKey} (ht : t.Records seen kept)
    (hu : u.Records seen kept) : t = u := by
  have hcounts : t.counts = u.counts := ht.counts.trans hu.counts.symm
  have hretained : t.retained = u.retained := ht.retained.trans hu.retained.symm
  cases t
  cases u
  cases hcounts
  cases hretained
  rfl

theorem QualifiedName.globally_ne (name : String) : globally name ≠ "" := by
  simp [globally]

theorem QualifiedName.inNamespace_ne (space name : String) : inNamespace space name ≠ "" :=
  globally_ne _

theorem ClassKind.hasKind_symbolKind (s : Selection) (kind : ClassKind) :
    s.hasKind kind.symbolKind = s.hasClassKind kind := by
  cases kind <;> rfl

namespace Request

open Tally

variable {r : Request} {t : Tally} {seen : List SymbolKey}

theorem records_count {kept : List SymbolKey} (kind : SymbolKind) (name : String)
    (ht : t.Records seen kept) :
    (t.count kind name).2.Records (seen ++ if name = "" then [] else [⟨kind, name⟩]) kept :=
  ⟨counts_count ht.counts, by rw [retained_count, ht.retained]⟩

theorem records_retain {kept : List SymbolKey} {kind : SymbolKind} {name : String}
    (ht : t.Records seen kept) : (t.retain kind name).Records seen (kept ++ [⟨kind, name⟩]) :=
  ⟨by rw [counts_retain, ht.counts], retained_retain ht.retained⟩

theorem accept_eq {kept : List SymbolKey} {kind : SymbolKind} {name : String}
    (ht : t.Records seen kept) (hkind : r.selection.hasKind kind) (hname : name ≠ "") :
    ∃ t', r.accept kind name t = (r.isNew seen ⟨kind, name⟩, t') ∧
      t'.Records (seen ++ [⟨kind, name⟩])
        (kept ++ if r.isNew seen ⟨kind, name⟩ then [⟨kind, name⟩] else []) := by
  have first : (t.count kind name).1 = !seen.contains ⟨kind, name⟩ := by
    simp [count_first ht.counts, hname]
  have hcount := records_count kind name ht
  rw [if_neg hname] at hcount
  have hnew : r.isNew seen ⟨kind, name⟩ =
      ((t.count kind name).1 && !r.environment kind name) := by
    simp [isNew, hkind, first]
  rw [accept, hnew]
  generalize t.count kind name = result at hcount
  obtain ⟨isFirst, t'⟩ := result
  cases isFirst with
  | false => exact ⟨t', rfl, by simpa using hcount⟩
  | true =>
    cases henv : r.environment kind name with
    | true => exact ⟨t', by simp, by simpa using hcount⟩
    | false => exact ⟨t'.retain kind name, by simp, by simpa using records_retain hcount⟩

def itemSymbols (space : String) (items : List ConstItem) : List SymbolKey :=
  items.map fun i => ⟨.constants, QualifiedName.inNamespace space i.name⟩

@[simp]
theorem itemSymbols_cons (space : String) (item : ConstItem) (items : List ConstItem) :
    itemSymbols space (item :: items) =
      ⟨.constants, QualifiedName.inNamespace space item.name⟩ :: itemSymbols space items :=
  rfl

theorem newItems_of_unselected (hsel : r.selection.constants = false) (space : String)
    (seen : List SymbolKey) (items : List ConstItem) : r.newItems space seen items = [] := by
  induction items generalizing seen with
  | nil => rfl
  | cons item items ih => simp [newItems, isNew, Selection.hasKind, hsel, ih]

theorem acceptItems_eq {kept : List SymbolKey} (space : String) (hkind : r.selection.constants)
    (items : List ConstItem) (ht : t.Records seen kept) :
    ∃ t', r.acceptItems space items t = (r.newItems space seen items, t') ∧
      t'.Records (seen ++ itemSymbols space items)
        (kept ++ itemSymbols space (r.newItems space seen items)) := by
  induction items generalizing t seen kept with
  | nil => exact ⟨t, rfl, by simpa [itemSymbols, newItems] using ht⟩
  | cons item items ih =>
    let key : SymbolKey := ⟨.constants, QualifiedName.inNamespace space item.name⟩
    obtain ⟨t₁, haccept, ht₁⟩ :=
      accept_eq ht (show r.selection.hasKind .constants from hkind)
        (QualifiedName.inNamespace_ne space item.name)
    obtain ⟨t₂, hitems, ht₂⟩ := ih ht₁
    refine ⟨t₂, ?_, ?_⟩
    · rw [acceptItems, haccept]
      simp only [hitems, newItems]
      cases r.isNew seen key <;> rfl
    · simp only [newItems, itemSymbols, List.map_cons, List.map_append]
      cases hnew : r.isNew seen key <;> simpa [hnew, key, itemSymbols] using ht₂

/-- A candidate as the walk leaves it, before it is judged. -/
def visited (r : Request) (guarded : Bool) : Decl → Decl
  | .function h _ => .function h []
  | .classLike h body =>
    if r.selection.hasClassKind h.kind then .classLike h (r.stubBody h body) else .classLike h body
  | .assign a => .assign (r.stubAssignment (!guarded) a)
  | d => d

/-- A candidate of one symbol: what is kept is what is accepted. -/
theorem records_single (key : SymbolKey) (stub : Decl) {kept : List SymbolKey} {c : Candidate}
    {judged : Option Decl × Tally} (ht : t.Records seen kept) (hname : key.name ≠ "")
    (hsymbols : c.symbols = [key])
    (hstubSymbols : ({ c with decl := stub } : Candidate).symbols = [key])
    (hstub : r.stub? seen c = if r.isNew seen key then some stub else none)
    (hon : r.selection.hasKind key.kind →
      judged = ((if (r.accept key.kind key.name t).1 then some stub else none),
        (r.accept key.kind key.name t).2))
    (hoff : r.selection.hasKind key.kind = false → judged = (none, t)) :
    ∃ t', judged = (r.stub? seen c, t') ∧ t'.Records (seen ++ r.counted c)
      (kept ++ (r.kept? seen c).toList.flatMap Candidate.symbols) := by
  obtain ⟨kind, name⟩ := key
  rw [hstub]
  cases hkind : r.selection.hasKind kind with
  | true =>
    obtain ⟨t', haccept, ht'⟩ := accept_eq ht hkind hname
    refine ⟨t', by rw [hon hkind, haccept], ?_⟩
    cases hnew : r.isNew seen ⟨kind, name⟩ <;>
      simpa [counted, kept?, hstub, hsymbols, hstubSymbols, hkind, hnew, hname] using ht'
  | false =>
    have hnew : r.isNew seen ⟨kind, name⟩ = false := by simp [isNew, hkind]
    refine ⟨t, by simp [hoff hkind, hnew], ?_⟩
    simpa [counted, kept?, hstub, hsymbols, hkind, hnew] using ht

theorem records_none {kept : List SymbolKey} {c : Candidate} (ht : t.Records seen kept)
    (hsymbols : c.symbols = []) (hstub : r.stub? seen c = none) :
    t.Records (seen ++ r.counted c)
      (kept ++ (r.kept? seen c).toList.flatMap Candidate.symbols) := by
  simpa [counted, kept?, hsymbols, hstub] using ht

theorem records_const {kept : List SymbolKey} {c : Candidate} {k : ConstDecl}
    (ht : t.Records seen kept) (hc : c.decl = .const k) :
    ∃ t', r.keep? c.space c.guarded (.const k) t = (r.stub? seen c, t') ∧
      t'.Records (seen ++ r.counted c)
        (kept ++ (r.kept? seen c).toList.flatMap Candidate.symbols) := by
  by_cases hsel : r.selection.constants
  · obtain ⟨t', haccept, ht'⟩ := acceptItems_eq c.space hsel k.items ht
    have hcounted : r.counted c = itemSymbols c.space k.items := by
      simp [counted, Candidate.symbols, hc, itemSymbols, Selection.hasKind, hsel,
        QualifiedName.inNamespace_ne]
    refine ⟨t', ?_, ?_⟩
    · simp only [keep?, hsel, if_true, haccept, stub?, hc]
      cases r.newItems c.space seen k.items <;> rfl
    · rw [hcounted]
      cases hnew : r.newItems c.space seen k.items <;>
        simpa [kept?, stub?, hc, hnew, Candidate.symbols, itemSymbols] using ht'
  · have hnew := newItems_of_unselected (r := r) (by simpa using hsel) c.space seen k.items
    have hcounted : r.counted c = [] := by
      simp [counted, Candidate.symbols, hc, Selection.hasKind, hsel, List.filter_eq_nil_iff]
    refine ⟨t, by simp [keep?, hsel, stub?, hc, hnew], ?_⟩
    simpa [hcounted, kept?, stub?, hc, hnew] using ht

/-- A global is counted whenever globals are, and kept for what stands above it. -/
theorem records_global {kept : List SymbolKey} {c : Candidate} {a : Assignment} {name : String}
    (ht : t.Records seen kept) (hc : c.decl = .assign a) (hguard : c.guarded = false)
    (htarget : plainTarget a.target = .plain name) :
    ∃ t', r.keep? c.space c.guarded (.assign (r.stubAssignment true a)) t =
        (r.stub? seen c, t') ∧
      t'.Records (seen ++ r.counted c)
        (kept ++ (r.kept? seen c).toList.flatMap Candidate.symbols) := by
  have hplain : plainTarget (.plain name) = .plain name := rfl
  have hcounted : r.counted c = if r.selection.hasGlobals then
      (if name = "" then [] else [⟨.globals, name⟩]) else [] := by
    by_cases hname : name = "" <;> by_cases hsel : r.selection.hasGlobals <;>
      simp [counted, Candidate.symbols, hc, hguard, htarget, Selection.hasKind, hname, hsel]
  by_cases hsel : r.selection.hasGlobals
  · have hcount := records_count .globals name ht
    by_cases hdoc : r.selection.hasGlobal a.doc.isSome
    · refine ⟨(t.count .globals name).2.retain .globals name, ?_, ?_⟩
      · simp [keep?, stub?, stubAssignment, acceptGlobal, hc, hguard, htarget, hsel, hdoc]
      · simpa [hcounted, hsel, kept?, stub?, Candidate.symbols, hc, hguard, htarget, hdoc, hplain]
          using records_retain hcount
    · refine ⟨(t.count .globals name).2, ?_, ?_⟩
      · simp [keep?, stub?, stubAssignment, acceptGlobal, hc, hguard, htarget, hsel, hdoc]
      · simpa [hcounted, hsel, kept?, stub?, hc, hguard, htarget, hdoc] using hcount
  · have hdoc : r.selection.hasGlobal a.doc.isSome = false := by
      simp only [Selection.hasGlobals, Bool.or_eq_true, not_or, Bool.not_eq_true] at hsel
      simp [Selection.hasGlobal, hsel]
    refine ⟨t, by simp [keep?, stub?, stubAssignment, hc, hguard, htarget, hsel, hdoc], ?_⟩
    simpa [hcounted, hsel, kept?, stub?, hc, hguard, htarget, hdoc] using ht

/-- A candidate is judged by the walk as it is by the pass. -/
theorem keep?_visited {kept : List SymbolKey} (c : Candidate) (ht : t.Records seen kept) :
    ∃ t', r.keep? c.space c.guarded (r.visited c.guarded c.decl) t = (r.stub? seen c, t') ∧
      t'.Records (seen ++ r.counted c)
        (kept ++ (r.kept? seen c).toList.flatMap Candidate.symbols) := by
  cases hc : c.decl with
  | function h body =>
    refine records_single ⟨.functions, QualifiedName.inNamespace c.space h.name⟩
      (.function h []) ht (QualifiedName.inNamespace_ne _ _) ?_ ?_ ?_ ?_ ?_
    · simp [Candidate.symbols, hc]
    · simp [Candidate.symbols]
    · simp [stub?, Candidate.symbols, hc]
    all_goals
      intro hsel
      simp only [Selection.hasKind] at hsel
      simp [visited, keep?, hsel]
  | classLike h body =>
    cases hname : h.name with
    | none =>
      refine ⟨t, ?_, records_none ht (by simp [Candidate.symbols, hc, hname])
        (by simp [stub?, Candidate.symbols, hc, hname])⟩
      by_cases hsel : r.selection.hasClassKind h.kind <;>
        simp [visited, keep?, stub?, Candidate.symbols, hc, hname, hsel]
    | some name =>
      refine records_single
        ⟨h.kind.symbolKind, QualifiedName.inNamespace c.space name⟩
        (.classLike h (r.stubBody h body)) ht (QualifiedName.inNamespace_ne _ _)
        ?_ ?_ ?_ ?_ ?_
      · simp [Candidate.symbols, hc, hname]
      · simp [Candidate.symbols, hname]
      · simp [stub?, Candidate.symbols, hc, hname]
      all_goals
        intro hsel
        rw [ClassKind.hasKind_symbolKind] at hsel
        simp [visited, keep?, hname, hsel]
  | const k => exact records_const ht hc
  | define d =>
    cases hname : d.name with
    | none =>
      exact ⟨t, by simp [visited, keep?, stub?, Candidate.symbols, hc, hname],
        records_none ht (by simp [Candidate.symbols, hc, hname])
          (by simp [stub?, Candidate.symbols, hc, hname])⟩
    | some name =>
      refine records_single ⟨.constants, QualifiedName.globally name⟩
        (.define d) ht (QualifiedName.globally_ne _) ?_ ?_ ?_ ?_ ?_
      · simp [Candidate.symbols, hc, hname]
      · simp [Candidate.symbols, hname]
      · simp [stub?, Candidate.symbols, hc, hname]
      all_goals
        intro hsel
        simp only [Selection.hasKind] at hsel
        simp [visited, keep?, hname, hsel]
  | assign a =>
    cases hguard : c.guarded with
    | true =>
      refine ⟨t, ?_, records_none ht (by simp [Candidate.symbols, hc, hguard])
        (by simp [stub?, hc, hguard])⟩
      simp only [visited, stubAssignment, keep?, stub?, hc, hguard]
      cases a.target <;> simp
    | false =>
      cases htarget : plainTarget a.target with
      | plain name => simpa [hguard, visited] using records_global (r := r) ht hc hguard htarget
      | globalsEntry key literal =>
        exact ⟨t, by simp [visited, keep?, stub?, stubAssignment, hc, hguard, htarget],
          records_none ht (by simp [Candidate.symbols, hc, hguard, htarget])
            (by simp [stub?, hc, hguard, htarget])⟩
      | place text =>
        exact ⟨t, by simp [visited, keep?, stub?, stubAssignment, hc, hguard, htarget],
          records_none ht (by simp [Candidate.symbols, hc, hguard, htarget])
            (by simp [stub?, hc, hguard, htarget])⟩
  | _ =>
    exact ⟨t, by simp [visited, keep?, stub?, hc],
      records_none ht (by simp [Candidate.symbols, hc]) (by simp [stub?, hc])⟩

end Request

end Stubsmith
