import Stubsmith.Proofs.Pruning
import Stubsmith.Proofs.Retained
import Stubsmith.Proofs.Statistics

namespace Stubsmith

namespace SymbolKind

/-- Whether two names stand for the same symbol of a kind. Leading backslashes make no difference,
for globals leading dollar signs; nor does the case of letters for functions and class-likes. -/
def isSameName (kind : SymbolKind) (a b : String) : Bool :=
  match kind with
  | .globals => Text.dropLeading '$' a == Text.dropLeading '$' b
  | .constants => Text.dropLeading '\\' a == Text.dropLeading '\\' b
  | _ => Text.lowercase (Text.dropLeading '\\' a) == Text.lowercase (Text.dropLeading '\\' b)

theorem lowercase_globally (name : String) :
    Text.lowercase (QualifiedName.globally name) =
      "\\" ++ Text.lowercase (Text.dropLeading '\\' name) := by
  rw [← String.toList_inj]
  simp [Text.lowercase, QualifiedName.globally]

/-- Names are compared in the form that known symbols have. -/
theorem normalized_eq_iff {kind : SymbolKind} {a b : String} :
    SymbolKey.normalized kind a = SymbolKey.normalized kind b ↔ kind.isSameName a b := by
  cases kind with
  | globals => simp [SymbolKey.normalized, isSameName]
  | constants => simp [SymbolKey.normalized, isSameName, QualifiedName.globally]
  | _ => simp [SymbolKey.normalized, isSameName, lowercase_globally]

end SymbolKind

namespace Environment

/-- The environment of the symbols in a list. -/
def listing (entries : List (SymbolKind × String)) : Environment :=
  fun kind name => entries.any fun e => e.1 = kind && kind.isSameName e.2 name

/-- What is left of a declaration of a namespace without what exists. Globals stay. -/
def leave? (e : Environment) (space : String) : Decl → Option Decl
  | .const k =>
    match k.items.filter fun i => !e .constants (QualifiedName.inNamespace space i.name) with
    | [] => none
    | items => some (.const { k with items := items })
  | .assign a => some (.assign a)
  | d => if (d.declared space).any fun key => e key.kind key.name then none else some d

theorem isClassLike_leave? {e : Environment} {space : String} {d left : Decl}
    (h : leave? e space d = some left) : left.isClassLike = d.isClassLike := by
  cases d with
  | const k =>
    rw [leave?] at h
    cases hitems : k.items.filter fun i =>
        !e .constants (QualifiedName.inNamespace space i.name) with
    | nil => simp [hitems] at h
    | cons item items =>
      rw [hitems] at h
      cases h
      rfl
  | assign a =>
    cases h
    rfl
  | _ =>
    simp only [leave?, Option.ite_none_left_eq_some, Option.some.injEq] at h
    rw [← h.2]

end Environment

namespace KnownSymbols

theorem mem_keys_ofList {entries : List (SymbolKind × String)} {key : SymbolKey} :
    key ∈ (ofList entries).keys ↔ ∃ e ∈ entries, SymbolKey.normalized e.1 e.2 = key := by
  have hfold (known : KnownSymbols) :
      key ∈ (entries.foldl (fun known e => known.insert e.1 e.2) known).keys ↔
        key ∈ known.keys ∨ ∃ e ∈ entries, SymbolKey.normalized e.1 e.2 = key := by
    induction entries generalizing known with
    | nil => simp
    | cons e entries ih =>
      have hinsert : key ∈ (known.insert e.1 e.2).keys ↔
          key = SymbolKey.normalized e.1 e.2 ∨ key ∈ known.keys := SymbolKey.mem_insert
      rw [List.foldl_cons, ih, hinsert, List.exists_mem_cons_iff, eq_comm]
      tauto
  have hstart := hfold {}
  simp only [List.not_mem_nil, false_or] at hstart
  exact hstart

theorem environment_ofList (entries : List (SymbolKind × String)) :
    (ofList entries).environment = Environment.listing entries := by
  funext kind name
  rw [Bool.eq_iff_iff, environment, List.contains_iff_mem, mem_keys_ofList, Environment.listing,
    List.any_eq_true]
  apply exists_congr
  intro e
  apply and_congr_right
  intro _
  rw [Bool.and_eq_true, decide_eq_true_iff]
  constructor
  · intro h
    have hkind : e.1 = kind := by
      rw [← SymbolKey.kind_normalized e.1 e.2, h, SymbolKey.kind_normalized]
    subst hkind
    exact ⟨rfl, SymbolKind.normalized_eq_iff.1 h⟩
  · intro h
    obtain ⟨rfl, hname⟩ := h
    exact SymbolKind.normalized_eq_iff.2 hname

end KnownSymbols

namespace Request

variable (r : Request)

/-- The run for the same symbols where nothing exists. -/
def fresh : Request :=
  { r with environment := .empty }

theorem isNew_fresh (seen : List SymbolKey) (key : SymbolKey) :
    r.isNew seen key = (!r.environment key.kind key.name && r.fresh.isNew seen key) := by
  simp [isNew, fresh, Environment.empty, Bool.and_comm]

theorem newItems_fresh (space : String) (seen : List SymbolKey) (items : List ConstItem) :
    r.newItems space seen items = (r.fresh.newItems space seen items).filter fun i =>
      !r.environment .constants (QualifiedName.inNamespace space i.name) := by
  induction items generalizing seen with
  | nil => rfl
  | cons item items ih =>
    rw [newItems, newItems, ih, List.filter_append, isNew_fresh]
    congr 1
    cases hfresh : r.fresh.isNew seen ⟨.constants, QualifiedName.inNamespace space item.name⟩ <;>
      cases henv : r.environment .constants (QualifiedName.inNamespace space item.name) <;>
      simp [henv]

/-- A stub is what is left of that where nothing exists. -/
theorem stub?_fresh (seen : List SymbolKey) (c : Candidate) :
    r.stub? seen c = (r.fresh.stub? seen c).bind (Environment.leave? r.environment c.space) := by
  have single (key : SymbolKey) {stub : Decl} (hsymbols : c.symbols = [key])
      (hleave : Environment.leave? r.environment c.space stub =
        if r.environment key.kind key.name then none else some stub) :
      (if c.symbols.any (r.isNew seen) then some stub else none) =
        (if c.symbols.any (r.fresh.isNew seen) then some stub else none).bind
          (Environment.leave? r.environment c.space) := by
    have hnew : c.symbols.any (r.isNew seen) =
        (!r.environment key.kind key.name && c.symbols.any (r.fresh.isNew seen)) := by
      simp [hsymbols, r.isNew_fresh]
    apply stub_eq_bind hnew
    rw [hleave]
    cases r.environment key.kind key.name <;> rfl
  cases hc : c.decl with
  | function h body =>
    simp only [stub?, hc]
    refine single ⟨.functions, QualifiedName.inNamespace c.space h.name⟩ ?_ ?_
    · simp [Candidate.symbols, hc]
    · simp [Environment.leave?, Decl.declared]
  | classLike h body =>
    cases hname : h.name with
    | none => simp [stub?, Candidate.symbols, hc, hname]
    | some name =>
      simp only [stub?, hc]
      refine single ⟨h.kind.symbolKind, QualifiedName.inNamespace c.space name⟩ ?_ ?_
      · simp [Candidate.symbols, hc, hname]
      · simp [Environment.leave?, Decl.declared, hname]
  | define d =>
    cases hname : d.name with
    | none => simp [stub?, Candidate.symbols, hc, hname]
    | some name =>
      simp only [stub?, hc]
      refine single ⟨.constants, QualifiedName.globally name⟩ ?_ ?_
      · simp [Candidate.symbols, hc, hname]
      · simp [Environment.leave?, Decl.declared, hname]
  | const k =>
    have hitems := r.newItems_fresh c.space seen k.items
    cases hfresh : r.fresh.newItems c.space seen k.items with
    | nil =>
      rw [hfresh, List.filter_nil] at hitems
      simp [stub?, hc, hfresh, hitems]
    | cons item items =>
      rw [hfresh] at hitems
      cases hnew : r.newItems c.space seen k.items <;>
        simp [stub?, hc, hfresh, hnew, Environment.leave?, ← hitems]
  | assign a =>
    cases hguard : c.guarded with
    | true => simp [stub?, hc, hguard]
    | false =>
      cases htarget : plainTarget a.target with
      | plain name =>
        have hoptions : r.fresh.options = r.options := rfl
        have hselection : r.fresh.selection = r.selection := rfl
        cases hselected : r.selection.hasGlobal a.doc.isSome <;>
          simp [stub?, hc, hguard, htarget, hselected, hoptions, hselection, Environment.leave?]
      | globalsEntry key literal => simp [stub?, hc, hguard, htarget]
      | place text => simp [stub?, hc, hguard, htarget]
  | _ => simp [stub?, hc]

theorem prunes_fresh :
    r.Prunes r.fresh (fun _ => true) (Environment.leave? r.environment) where
  counted c := (List.filter_true _).symm
  stub? seen c := by
    rw [List.filter_true]
    exact r.stub?_fresh seen c
  isClassLike _ _ _ := Environment.isClassLike_leave?

/-- What exists is not kept, globals apart. -/
theorem not_environment_of_mem_retained {files : List (List Decl)} {key : SymbolKey}
    (hfiles : ∀ ds ∈ files, Decl.fitsAll .file ds)
    (h : key ∈ (r.extract files).tally.retained) (hkind : key.kind ≠ .globals) :
    r.environment key.kind key.name = false := by
  obtain ⟨c, -, -, hkeeps⟩ := (mem_retained_extract hfiles).1 h
  rw [keeps_of_ne hkind] at hkeeps
  exact (isNew_iff.1 hkeeps).2.2

/-- A run with known symbols counts what the run without any counts. Its namespaces and statements
are those of that run without the functions and constants in the list, and no class-like of the
stubs is in the list under its kind. -/
theorem extract_known (r : Request) (entries : List (SymbolKind × String))
    (files : List (List Decl)) (hfiles : ∀ ds ∈ files, Decl.fitsAll .file ds)
    (unparsed : List Unparsed) :
    let known := (KnownSymbols.ofList entries).environment
    let x := ({ r with environment := known } : Request).extract files
    let all := ({ r with environment := .empty } : Request).extract files
    let left? := Environment.leave? (Environment.listing entries)
    x.tally.counts = all.tally.counts ∧
      (x.result unparsed).duplicates = (all.result unparsed).duplicates ∧
      x.spaces = Group.prune left? all.spaces ∧
      x.statements = all.statements.filterMap (left? "") ∧
      ∀ (kind : ClassKind) (name : String),
        ⟨kind.symbolKind, name⟩ ∈ Decl.declaredAll (x.result unparsed).statements →
          ∀ e ∈ entries, e.1 = kind.symbolKind →
            Text.lowercase (Text.dropLeading '\\' e.2) ≠
              Text.lowercase (Text.dropLeading '\\' name) := by
  intro known x all left?
  let s : Request := { r with environment := known }
  have hknown : known = Environment.listing entries := KnownSymbols.environment_ofList entries
  obtain ⟨hspaces, hstatements, hcounts⟩ := s.prunes_fresh.extract_eq hfiles
  have hsame : x.tally.counts = all.tally.counts := by
    rw [List.filter_true] at hcounts
    exact hcounts
  refine ⟨hsame, ?_, ?_, ?_, ?_⟩
  · simp only [Extract.result, Tally.duplicates, hsame]
  · simp only [left?, ← hknown]
    exact hspaces
  · simp only [left?, ← hknown]
    exact hstatements
  · intro kind name hname e he hkind heq
    have hretained := mem_retained_of_mem_declaredAll (r := s) hfiles hname
    have habsent := s.not_environment_of_mem_retained hfiles hretained
      (Candidate.symbolKind_ne_globals kind)
    have hsameName : kind.symbolKind.isSameName e.2 name := by
      cases kind <;> simpa [ClassKind.symbolKind, SymbolKind.isSameName] using heq
    have hpresent : known kind.symbolKind name = true := by
      rw [hknown, Environment.listing, List.any_eq_true]
      exact ⟨e, he, by simp [hkind, hsameName]⟩
    rw [show known kind.symbolKind name = false from habsent] at hpresent
    cases hpresent

/-- A function, a class and a constant that exist under other spellings are left out, the enum with
the name of the class is not. -/
theorem extract_known_mixedFiles :
    (∀ ds ∈ mixedFiles, Decl.fitsAll .file ds) ∧
      let entries := [(.functions, "n\\F"), (.classes, "c"), (.constants, "\\\\N\\X"), (.enums, "D")]
      let known := (KnownSymbols.ofList entries).environment
      let x := ({ environment := known } : Request).extract mixedFiles
      let all := ({ environment := .empty } : Request).extract mixedFiles
      x.tally.counts = all.tally.counts ∧ (x.result []).duplicates = (all.result []).duplicates ∧
        all.spaces.map (fun g => (g.space, g.body.length)) = [("N", 3)] ∧
        x.spaces.map (fun g => (g.space, g.body.length)) = [("N", 1)] ∧
        ⟨.enums, "\\C"⟩ ∈ Decl.declaredAll (x.result []).statements ∧
        Text.lowercase (Text.dropLeading '\\' "D") ≠
          Text.lowercase (Text.dropLeading '\\' "\\C") := by
  have hfiles : ∀ ds ∈ mixedFiles, Decl.fitsAll .file ds := by decide
  refine ⟨hfiles, ?_⟩
  intro entries known x all
  obtain ⟨hcounts, hduplicates, hspaces, -, hclassLikes⟩ :=
    extract_known {} entries mixedFiles hfiles []
  have hdeclared : ⟨.enums, "\\C"⟩ ∈ Decl.declaredAll (x.result []).statements := by decide +kernel
  have hall : all.spaces.map (fun g => (g.space, g.body.length)) = [("N", 3)] := by decide +kernel
  have hleft : x.spaces.map (fun g => (g.space, g.body.length)) = [("N", 1)] := by
    rw [hspaces]
    decide +kernel
  have hother := hclassLikes .enumType "\\C" hdeclared (.enums, "D") (by simp [entries]) rfl
  refine ⟨?_, ?_, hall, hleft, hdeclared, hother⟩
  · rw [hcounts]
  · rw [hduplicates]

end Request

end Stubsmith
