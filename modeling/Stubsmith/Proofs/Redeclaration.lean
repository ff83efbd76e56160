import Mathlib.Data.List.DropRight
import Stubsmith.Proofs.Statistics

namespace Stubsmith

namespace Text

theorem dropLeading_dropLeading (c : Char) (s : String) :
    dropLeading c (dropLeading c s) = dropLeading c s := by
  simp [dropLeading, List.dropWhile_idempotent]

end Text

namespace QualifiedName

theorem globally_globally (name : String) : globally (globally name) = globally name := by
  have hlead : Text.dropLeading '\\' (globally name) = Text.dropLeading '\\' name := by
    rw [← Text.dropLeading_dropLeading '\\' name]
    simp [globally, Text.dropLeading]
  rw [globally, hlead, ← globally]

end QualifiedName

namespace SymbolKey

theorem canonical_globally (name : String) :
    canonical ⟨.constants, QualifiedName.globally name⟩ =
      ⟨.constants, QualifiedName.globally name⟩ :=
  congrArg (SymbolKey.mk .constants) (QualifiedName.globally_globally name)

/-- The names of constants are declared in the form in which they are compared. -/
theorem canonical_of_mem_declared {key : SymbolKey} {space : String} {d : Decl}
    (h : key ∈ d.declared space) (hkind : key.kind = .constants) : key.canonical = key := by
  cases d with
  | function head body =>
    rw [List.mem_singleton.1 h] at hkind
    cases hkind
  | classLike head body =>
    obtain ⟨name, -, rfl⟩ := List.mem_map.1 h
    have hfamily := family_symbolKind head.kind
    rw [show head.kind.symbolKind = .constants from hkind] at hfamily
    cases hfamily
  | const k =>
    obtain ⟨item, -, rfl⟩ := List.mem_map.1 h
    exact canonical_globally _
  | define k =>
    obtain ⟨name, -, rfl⟩ := List.mem_map.1 h
    exact canonical_globally name
  | assign a =>
    obtain ⟨doc, target, value⟩ := a
    cases target with
    | plain name =>
      rw [List.mem_singleton.1 h] at hkind
      cases hkind
    | _ => cases h
  | _ => cases h

end SymbolKey

namespace Request

open SymbolKey

/-- Stubs declare no symbol twice under one name, and no constant twice. They declare no symbol
twice at all if and only if those that were kept and are the same symbol have the same name. -/
theorem nodup_declared_extract (r : Request) (files : List (List Decl))
    (hfiles : ∀ ds ∈ files, Decl.fitsAll .file ds) (unparsed : List Unparsed) :
    let stubs := (r.extract files).result unparsed
    let declared := (Decl.declaredAll stubs.statements).filter (·.kind != .globals)
    let retained := (r.extract files).tally.retained
    (declared.map inFamily).Nodup ∧
      ((declared.filter (·.kind = .constants)).map canonical).Nodup ∧
      ((declared.map canonical).Nodup ↔
        ∀ a ∈ retained, ∀ b ∈ retained, a.kind ≠ .globals → a.canonical = b.canonical →
          a.name = b.name) := by
  intro stubs declared retained
  have hfamily : (declared.map inFamily).Nodup := nodup_declaredAll hfiles
  have hkept {key : SymbolKey} (h : key ∈ declared) : key ∈ retained ∧ key.kind ≠ .globals := by
    obtain ⟨hmem, hkind⟩ := List.mem_filter.1 h
    exact ⟨mem_retained_of_mem_declaredAll hfiles hmem, by simpa using hkind⟩
  have hdeclared {key : SymbolKey} (h : key ∈ retained) (hkind : key.kind ≠ .globals) :
      ∃ d ∈ declared, d.inFamily = key.inFamily := by
    obtain ⟨d, hd, heq⟩ := exists_mem_declaredAll_of_mem_retained hfiles h
    have hkind' := ne_globals_of_family (congrArg SymbolKey.kind heq).symm hkind
    exact ⟨d, List.mem_filter.2 ⟨hd, by simpa using hkind'⟩, heq⟩
  refine ⟨hfamily, ?_, ?_⟩
  · have hself : (declared.filter (·.kind = .constants)).map canonical =
        declared.filter (·.kind = .constants) := by
      apply (List.map_congr_left ?_).trans (List.map_id _)
      intro key hkey
      obtain ⟨hkey, hkind⟩ := List.mem_filter.1 hkey
      have hmem := List.mem_of_mem_filter hkey
      rw [Extract.statements_result, declaredAll_assemble hfiles] at hmem
      obtain ⟨p, -, hp⟩ := List.mem_flatMap.1 hmem
      exact canonical_of_mem_declared hp (by simpa using hkind)
    rw [hself]
    exact (hfamily.of_map _).filter _
  · constructor
    · intro hnodup a ha b hb hkind hab
      have hkind' := ne_globals_of_family (family_eq_of_canonical hab) hkind
      obtain ⟨d, hd, hda⟩ := hdeclared ha hkind
      obtain ⟨e, he, heb⟩ := hdeclared hb hkind'
      have hde : d = e := by
        apply List.inj_on_of_nodup_map hnodup hd he
        rw [canonical_inFamily hda, canonical_inFamily heb, hab]
      have hfamilies : a.inFamily = b.inFamily := by rw [← hda, ← heb, hde]
      exact (SymbolKey.mk.inj hfamilies).2
    · intro h
      apply (hfamily.of_map _).map_on
      intro a ha b hb hab
      have hname := h a (hkept ha).1 b (hkept hb).1 (hkept ha).2 hab
      apply List.inj_on_of_nodup_map hfamily ha hb
      exact congrArg₂ SymbolKey.mk (family_eq_of_canonical hab) hname

theorem nodup_declared_mixedFiles :
    (∀ ds ∈ mixedFiles, Decl.fitsAll .file ds) ∧
      let stubs := (({} : Request).extract mixedFiles).result []
      (((Decl.declaredAll stubs.statements).filter (·.kind != .globals)).map canonical).Nodup := by
  have hfiles : ∀ ds ∈ mixedFiles, Decl.fitsAll .file ds := by decide
  have hretained : (({} : Request).extract mixedFiles).tally.retained =
      [⟨.functions, "\\N\\f"⟩, ⟨.classes, "\\C"⟩, ⟨.enums, "\\C"⟩, ⟨.constants, "\\N\\X"⟩,
        ⟨.globals, "g"⟩] := by decide +kernel
  have hsame : ∀ a ∈ (({} : Request).extract mixedFiles).tally.retained,
      ∀ b ∈ (({} : Request).extract mixedFiles).tally.retained,
        a.kind ≠ .globals → a.canonical = b.canonical → a.name = b.name := by
    rw [hretained]
    decide +kernel
  obtain ⟨-, -, hiff⟩ := nodup_declared_extract {} mixedFiles hfiles []
  exact ⟨hfiles, hiff.2 hsame⟩

/-- Functions and class-likes of one name each, but for the case of letters. -/
def unevenFiles : List (List Decl) :=
  [[.function { name := "f" } [], .classLike { kind := .classType, name := some "C" } []],
    [.function { name := "F" } [], .classLike { kind := .interfaceType, name := some "c" } []]]

theorem canonical_declared_unevenFiles :
    (∀ ds ∈ unevenFiles, Decl.fitsAll .file ds) ∧
      let stubs := (({} : Request).extract unevenFiles).result []
      ((Decl.declaredAll stubs.statements).map canonical) =
        [⟨.classes, "\\c"⟩, ⟨.classes, "\\c"⟩, ⟨.functions, "\\f"⟩, ⟨.functions, "\\f"⟩] := by
  decide +kernel

end Request

end Stubsmith
