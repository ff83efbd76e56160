import Stubsmith.Proofs.Pruning
import Stubsmith.Proofs.Retained

namespace Stubsmith

namespace Selection

/-- Whether a selection asks for what a declaration declares. Globals are told apart by whether a
doc comment stands at them. -/
def admits (s : Selection) : Decl → Bool
  | .function .. => s.functions
  | .classLike h _ => s.hasClassKind h.kind
  | .const _ | .define _ => s.constants
  | .assign a => s.hasGlobal a.doc.isSome
  | _ => true

/-- The symbols of a list that are of a selected kind. -/
def restrict (s : Selection) (keys : List SymbolKey) : List SymbolKey :=
  keys.filter fun key => s.hasKind key.kind

theorem hasKind_all (kind : SymbolKind) : Selection.all.hasKind kind = true := by
  cases kind <;> rfl

theorem hasGlobal_all (documented : Bool) : Selection.all.hasGlobal documented = true := by
  cases documented <;> rfl

end Selection

namespace Request

variable (r : Request)

/-- The run with the same options and environment for all symbols. -/
def forAll : Request :=
  { r with selection := .all }

theorem counted_forAll (c : Candidate) :
    r.counted c = r.selection.restrict (r.forAll.counted c) := by
  simp only [counted, forAll, Selection.restrict, Selection.hasKind_all, Bool.true_and,
    List.filter_filter]

/-- Only symbols of its own kind keep a symbol from being new. -/
theorem isNew_forAll (seen : List SymbolKey) (key : SymbolKey) :
    r.isNew (r.selection.restrict seen) key =
      (r.selection.hasKind key.kind && r.forAll.isNew seen key) := by
  cases hkind : r.selection.hasKind key.kind with
  | false => simp [isNew, hkind]
  | true =>
    have hmem : (r.selection.restrict seen).contains key = seen.contains key := by
      rw [Bool.eq_iff_iff]
      simp [Selection.restrict, hkind]
    simp only [isNew, hkind, hmem, forAll, Selection.hasKind_all, Bool.true_and]

theorem newItems_forAll (hsel : r.selection.constants = true) (space : String)
    (seen : List SymbolKey) (items : List ConstItem) :
    r.newItems space (r.selection.restrict seen) items = r.forAll.newItems space seen items := by
  induction items generalizing seen with
  | nil => rfl
  | cons item items ih =>
    let key : SymbolKey := ⟨.constants, QualifiedName.inNamespace space item.name⟩
    have hkind : r.selection.hasKind key.kind = true := hsel
    have hseen : r.selection.restrict seen ++ [key] = r.selection.restrict (seen ++ [key]) := by
      simp [Selection.restrict, hkind]
    have hnew : r.isNew (r.selection.restrict seen) key = r.forAll.isNew seen key := by
      rw [isNew_forAll, hkind, Bool.true_and]
    rw [newItems, newItems, hnew, hseen, ih]

/-- Where all symbols of a candidate are of one kind, one of them is new if the kind is selected and
one is new to the run for all symbols. -/
theorem any_isNew_forAll {c : Candidate} {kind : SymbolKind}
    (hkinds : ∀ key ∈ c.symbols, key.kind = kind) (seen : List SymbolKey) :
    c.symbols.any (r.isNew (r.selection.restrict seen)) =
      (r.selection.hasKind kind && c.symbols.any (r.forAll.isNew seen)) := by
  rw [Bool.eq_iff_iff, Bool.and_eq_true, List.any_eq_true, List.any_eq_true]
  simp only [isNew_forAll, Bool.and_eq_true]
  constructor
  · intro h
    obtain ⟨key, hkey, hkind, hnew⟩ := h
    exact ⟨hkinds key hkey ▸ hkind, key, hkey, hnew⟩
  · intro h
    obtain ⟨hkind, key, hkey, hnew⟩ := h
    exact ⟨key, hkey, (hkinds key hkey).symm ▸ hkind, hnew⟩

/-- A stub is that of the run for all symbols if the selection asks for it. -/
theorem stub?_forAll (seen : List SymbolKey) (c : Candidate) :
    r.stub? (r.selection.restrict seen) c =
      (r.forAll.stub? seen c).bind (Option.guard r.selection.admits) := by
  have single (kind : SymbolKind) {stub : Decl} (hkinds : ∀ key ∈ c.symbols, key.kind = kind)
      (hadmits : r.selection.admits stub = r.selection.hasKind kind) :
      (if c.symbols.any (r.isNew (r.selection.restrict seen)) then some stub else none) =
        (if c.symbols.any (r.forAll.isNew seen) then some stub else none).bind
          (Option.guard r.selection.admits) := by
    apply stub_eq_bind (r.any_isNew_forAll hkinds seen)
    rw [Option.guard, hadmits]
  cases hc : c.decl with
  | function h body =>
    simp only [stub?, hc]
    exact single .functions (by simp [Candidate.symbols, hc]) rfl
  | classLike h body =>
    simp only [stub?, hc]
    exact single h.kind.symbolKind (by simp [Candidate.symbols, hc])
      (ClassKind.hasKind_symbolKind r.selection h.kind).symm
  | define d =>
    simp only [stub?, hc]
    exact single .constants (by simp [Candidate.symbols, hc]) rfl
  | const k =>
    cases hsel : r.selection.constants with
    | true =>
      have hitems := r.newItems_forAll hsel c.space seen k.items
      cases hall : r.forAll.newItems c.space seen k.items <;>
        simp [stub?, hc, hitems, hall, hsel, Selection.admits, Option.guard]
    | false =>
      have hitems := newItems_of_unselected hsel c.space (r.selection.restrict seen) k.items
      cases hall : r.forAll.newItems c.space seen k.items <;>
        simp [stub?, hc, hitems, hall, hsel, Selection.admits, Option.guard]
  | assign a =>
    cases hguard : c.guarded with
    | true => simp [stub?, hc, hguard]
    | false =>
      cases htarget : plainTarget a.target with
      | plain name =>
        have hall : r.forAll.selection.hasGlobal a.doc.isSome = true := Selection.hasGlobal_all _
        have hoptions : r.forAll.options = r.options := rfl
        cases hsel : r.selection.hasGlobal a.doc.isSome <;>
          simp [stub?, hc, hguard, htarget, hsel, hall, hoptions, Selection.admits, Option.guard]
      | globalsEntry key literal => simp [stub?, hc, hguard, htarget]
      | place text => simp [stub?, hc, hguard, htarget]
  | _ => simp [stub?, hc]

theorem prunes_forAll : r.Prunes r.forAll (fun key => r.selection.hasKind key.kind)
    (fun _ => Option.guard r.selection.admits) where
  counted := r.counted_forAll
  stub? := r.stub?_forAll
  isClassLike space d e h := by
    obtain ⟨rfl, -⟩ := Option.guard_eq_some_iff.1 h
    rfl

/-- Of a selected kind the run keeps what the run for all symbols keeps, globals apart. -/
theorem retained_forAll {files : List (List Decl)} (hfiles : ∀ ds ∈ files, Decl.fitsAll .file ds)
    {kind : SymbolKind} (hkind : r.selection.hasKind kind) (hne : kind ≠ .globals) :
    (r.extract files).tally.retained.filter (·.kind = kind) =
      (r.forAll.extract files).tally.retained.filter (·.kind = kind) := by
  apply SymbolKey.eq_of_mem_iff ((Tally.retained_sorted _).filter _)
    ((Tally.retained_sorted _).filter _)
  intro key
  rw [List.mem_filter, List.mem_filter, mem_retained_extract hfiles, mem_retained_extract hfiles]
  apply and_congr_left
  intro hkey
  obtain rfl : key.kind = kind := by simpa using hkey
  have hnew : r.isNew [] key = r.forAll.isNew [] key := by
    have h := r.isNew_forAll [] key
    rwa [hkind, Bool.true_and] at h
  simp only [keeps_of_ne hne, hnew]

/-- A run for some kinds of symbols finds what the run for all kinds finds, without what was not
selected and without namespaces in which that leaves nothing. For the selected kinds the counts and
the kept symbols are those of the run for all kinds, except that a global is kept for what stands
above its assignments. -/
theorem extract_selection (r : Request) (files : List (List Decl))
    (hfiles : ∀ ds ∈ files, Decl.fitsAll .file ds) :
    let x := r.extract files
    let whole := ({ r with selection := .all } : Request).extract files
    x.spaces = (whole.spaces.map fun g =>
        { g with body := g.body.filter r.selection.admits }).filter (!·.body.isEmpty) ∧
      x.statements = whole.statements.filter r.selection.admits ∧
      ∀ kind, r.selection.hasKind kind →
        x.tally.counts.filter (·.1.kind = kind) = whole.tally.counts.filter (·.1.kind = kind) ∧
          (kind ≠ .globals → x.tally.retained.filter (·.kind = kind) =
            whole.tally.retained.filter (·.kind = kind)) := by
  intro x whole
  obtain ⟨hspaces, hstatements, hcounts⟩ := r.prunes_forAll.extract_eq hfiles
  refine ⟨?_, ?_, ?_⟩
  · simp only [Group.prune, List.filterMap_eq_filter] at hspaces
    exact hspaces
  · rw [List.filterMap_eq_filter] at hstatements
    exact hstatements
  · intro kind hkind
    refine ⟨?_, r.retained_forAll hfiles hkind⟩
    change (r.extract files).tally.counts.filter _ = _
    rw [hcounts, List.filter_filter]
    apply List.filter_congr
    intro e _
    by_cases he : e.1.kind = kind <;> simp [he, hkind]

/-- Where enums and globals without a doc comment are selected, nothing is left of the namespace. -/
theorem extract_selection_mixedFiles :
    (∀ ds ∈ mixedFiles, Decl.fitsAll .file ds) ∧
      let r : Request := { selection := { enums := true, undocumentedGlobals := true } }
      let x := r.extract mixedFiles
      let whole := ({ r with selection := .all } : Request).extract mixedFiles
      r.selection.hasKind .globals ∧ x.spaces.length = 0 ∧
        whole.spaces.map (fun g => (g.space, g.body.length)) = [("N", 3)] ∧
        x.statements = whole.statements.filter r.selection.admits ∧ x.statements.length = 1 ∧
        x.tally.counts.filter (·.1.kind = .globals) =
          whole.tally.counts.filter (·.1.kind = .globals) := by
  have hfiles : ∀ ds ∈ mixedFiles, Decl.fitsAll .file ds := by decide
  refine ⟨hfiles, ?_⟩
  intro r x whole
  have hkind : r.selection.hasKind .globals := rfl
  obtain ⟨hspaces, hstatements, hkinds⟩ := extract_selection r mixedFiles hfiles
  have hglobals := (hkinds .globals hkind).1
  refine ⟨hkind, ?_, ?_, hstatements, ?_, ?_⟩
  · rw [hspaces]
    decide +kernel
  · decide +kernel
  · decide +kernel
  · rw [hglobals]

end Request

end Stubsmith
