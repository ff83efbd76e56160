import Stubsmith.Proofs.Idempotence

namespace Stubsmith

namespace SymbolKey

variable {keys more : List SymbolKey} {kind : SymbolKind}

theorem names_subperm (h : ∀ name, ⟨kind, name⟩ ∈ keys → ⟨kind, name⟩ ∈ more) :
    ((keys.filter (·.kind = kind)).map name).dedup.Subperm
      ((more.filter (·.kind = kind)).map name).dedup := by
  apply (List.nodup_dedup _).subperm
  intro n hn
  rw [List.mem_dedup, mem_names_of_kind] at hn ⊢
  exact h n hn

theorem nameCount_le (h : ∀ name, ⟨kind, name⟩ ∈ keys → ⟨kind, name⟩ ∈ more) :
    nameCount keys kind ≤ nameCount more kind :=
  (names_subperm h).length_le

theorem nameCount_eq_iff (h : ∀ name, ⟨kind, name⟩ ∈ keys → ⟨kind, name⟩ ∈ more) :
    nameCount more kind = nameCount keys kind ↔
      ∀ name, ⟨kind, name⟩ ∈ more → ⟨kind, name⟩ ∈ keys := by
  constructor
  · intro heq n hn
    have hperm := (names_subperm h).perm_of_length_le (Nat.le_of_eq heq)
    have hmem := List.mem_dedup.2 (mem_names_of_kind.2 hn)
    exact mem_names_of_kind.1 (List.mem_dedup.1 (hperm.mem_iff.2 hmem))
  · intro hback
    exact Nat.le_antisymm (nameCount_le hback) (nameCount_le h)

theorem nameCount_of_nodup (h : keys.Nodup) (kind : SymbolKind) :
    nameCount keys kind = keys.countP (·.kind = kind) := by
  have hnames : ((keys.filter (·.kind = kind)).map name).Nodup := by
    apply (h.sublist List.filter_sublist).map_on
    intro a ha b hb hab
    obtain ⟨-, hkind⟩ := List.mem_filter.1 ha
    obtain ⟨-, hkind'⟩ := List.mem_filter.1 hb
    simp only [decide_eq_true_eq] at hkind hkind'
    exact congrArg₂ SymbolKey.mk (hkind.trans hkind'.symm) hab
  rw [nameCount, hnames.dedup, List.length_map, List.countP_eq_length_filter]

end SymbolKey

namespace Tally

theorem retainedCount_eq (t : Tally) (kind : SymbolKind) :
    t.retainedCount kind = SymbolKey.nameCount t.retained kind :=
  (SymbolKey.nameCount_of_nodup (SymbolKey.nodup_of_pairwise t.retained_sorted) kind).symm

theorem lookup_stats (t : Tally) (kind : SymbolKind) :
    t.stats.lookup kind = some (SymbolKey.nameCount t.retained kind) := by
  rw [← retainedCount_eq]
  cases kind <;> rfl

end Tally

namespace ClassKind

theorem symbolKind_injective {j k : ClassKind} (h : j.symbolKind = k.symbolKind) : j = k := by
  cases j <;> cases k <;> simp_all [symbolKind]

end ClassKind

namespace Candidate

theorem exists_descriptor?_of_isClassLike {c : Candidate} (h : c.decl.isClassLike) :
    ∃ e, c.descriptor? = some e := by
  cases hd : c.decl with
  | classLike head body => exact ⟨.ofClassLike c.space ⟨head, body⟩, by rw [descriptor?, hd]⟩
  | _ => simp [hd, Decl.isClassLike] at h

end Candidate

namespace Request

open Candidate

variable {r : Request} {files : List (List Decl)} {key : SymbolKey}

section

variable (hfiles : ∀ ds ∈ files, Decl.fitsAll .file ds)

include hfiles

theorem declaredAll_assemble :
    Decl.declaredAll (r.extract files).assemble =
      (r.extract files).contents.flatMap fun p => p.2.declared p.1 := by
  rw [← (arranged_extract (r := r) hfiles).spread_assemble, List.flatMap_map]
  rfl

/-- The symbols that are noted as kept are those of the candidates that are kept. -/
theorem mem_retained_iff : key ∈ (r.extract files).tally.retained ↔
    ∃ c ∈ r.keptOf files, key ∈ c.decl.declared c.space := by
  rw [(follows_extract (r := r) hfiles).2.tally.retained, SymbolKey.mem_sortedSet,
    List.mem_flatMap]
  apply exists_congr
  intro c
  apply and_congr_right
  intro hc
  rw [symbols_of_mem_keptFrom hc]

theorem mem_retained_of_mem_declaredAll
    (h : key ∈ Decl.declaredAll (r.extract files).assemble) :
    key ∈ (r.extract files).tally.retained := by
  rw [declaredAll_assemble hfiles] at h
  obtain ⟨p, hp, hkey⟩ := List.mem_flatMap.1 h
  obtain ⟨c, hc, rfl⟩ := exists_kept_of_mem_contents hfiles hp
  exact (mem_retained_iff hfiles).2 ⟨c, hc, hkey⟩

/-- Under the name of a class-like that is kept some class-like stands in the stubs. -/
theorem exists_ordered_of_mem_keptOf {c : Candidate} (hc : c ∈ r.keptOf files) {e : Descriptor}
    (he : c.descriptor? = some e) :
    ∃ c' ∈ r.keptOf files, ∃ e' ∈ (r.extract files).classLikes.ordered,
      c'.descriptor? = some e' ∧ e'.fullName = e.fullName := by
  obtain ⟨e', he', hname⟩ := Registry.exists_mem_descriptors_insertAll
    ((r.keptOf files).filterMap descriptor?) (List.mem_filterMap.2 ⟨c, hc, he⟩)
  rw [keptOf, ← (follows_extract (r := r) hfiles).2.classLikes] at he'
  obtain ⟨c', hc', hce'⟩ := exists_kept_of_mem_descriptors hfiles he'
  have hordered : e' ∈ (r.extract files).classLikes.ordered :=
    (Registry.ordered_perm (arranged_extract hfiles).consistent).mem_iff.2 he'
  exact ⟨c', hc', e', hordered, hce', hname⟩

/-- A symbol that is noted as kept is declared, if perhaps by a class-like of another kind. -/
theorem exists_mem_declaredAll_of_mem_retained (h : key ∈ (r.extract files).tally.retained) :
    ∃ d ∈ Decl.declaredAll (r.extract files).assemble, d.inFamily = key.inFamily := by
  obtain ⟨c, hc, hkey⟩ := (mem_retained_iff hfiles).1 h
  rw [declaredAll_assemble hfiles, contents_extract hfiles]
  cases hclass : c.decl.isClassLike with
  | false =>
    have hloose : c.located ∈ looseContents 0 (r.keptOf files) files.flatten := by
      apply (looseContents_perm [] 0 files.flatten).mem_iff.2
      exact List.mem_map_of_mem (List.mem_filter.2 ⟨hc, by simp [hclass]⟩)
    exact ⟨key, List.mem_flatMap.2 ⟨c.located, List.mem_append_right _ hloose, hkey⟩, rfl⟩
  | true =>
    obtain ⟨e, he⟩ := exists_descriptor?_of_isClassLike hclass
    obtain ⟨hspace, hdecl⟩ := Prod.mk.inj (eq_toDecl_of_descriptor? he).1
    rw [hspace, hdecl, declared_of_mem_keptOf hc he, List.mem_singleton] at hkey
    -- this class-like or one that came later and took its place
    obtain ⟨c', hc', e', hordered, hce', hname⟩ := exists_ordered_of_mem_keptOf hfiles hc he
    refine ⟨⟨e'.classLike.head.kind.symbolKind, e'.fullName⟩, ?_, ?_⟩
    · apply List.mem_flatMap.2
      refine ⟨(e'.space, e'.toDecl), List.mem_append_left _ (List.mem_map_of_mem hordered), ?_⟩
      rw [declared_of_mem_keptOf hc' hce']
      exact List.mem_singleton_self _
    · simp [hkey, SymbolKey.inFamily, SymbolKey.family_symbolKind, hname]

theorem mem_declaredAll_or_classLike {kind : SymbolKind} {name : String}
    (h : ⟨kind, name⟩ ∈ (r.extract files).tally.retained) :
    ⟨kind, name⟩ ∈ Decl.declaredAll (r.extract files).assemble ∨
      ∃ j k : ClassKind, kind = j.symbolKind ∧
        ⟨k.symbolKind, name⟩ ∈ Decl.declaredAll (r.extract files).assemble := by
  obtain ⟨⟨kind', name'⟩, hd, heq⟩ := exists_mem_declaredAll_of_mem_retained hfiles h
  obtain ⟨hkind, rfl⟩ := SymbolKey.mk.inj heq
  rcases SymbolKey.eq_or_symbolKind_of_family hkind with rfl | ⟨k, j, rfl, rfl⟩
  · exact .inl hd
  · exact .inr ⟨j, k, rfl, hd⟩

theorem nodup_declaredAll :
    (((Decl.declaredAll (r.extract files).assemble).filter (·.kind != .globals)).map
      SymbolKey.inFamily).Nodup := by
  have hnodup := nodup_declaredOnce_contents (r := r) hfiles
  have honce : (r.extract files).contents.flatMap (fun p => p.2.declaredOnce p.1) =
      (Decl.declaredAll (r.extract files).assemble).filter (·.kind != .globals) := by
    rw [declaredAll_assemble hfiles, List.filter_flatMap]
    rfl
  rwa [honce] at hnodup

theorem eq_of_mem_declaredAll {a b : SymbolKey}
    (ha : a ∈ Decl.declaredAll (r.extract files).assemble)
    (hb : b ∈ Decl.declaredAll (r.extract files).assemble) (hkind : a.kind ≠ .globals)
    (h : a.inFamily = b.inFamily) : a = b := by
  have hkind' := SymbolKey.ne_globals_of_family (congrArg SymbolKey.kind h) hkind
  exact List.inj_on_of_nodup_map (nodup_declaredAll hfiles)
    (List.mem_filter.2 ⟨ha, by simpa using hkind⟩) (List.mem_filter.2 ⟨hb, by simpa using hkind'⟩) h

end

/-- The statistics say how many names of a kind the stubs declare, and for class-likes at least that
many. They are exact for all kinds if and only if no two class-likes of different kinds that were
kept have the same name. -/
theorem stats_extract (r : Request) (files : List (List Decl))
    (hfiles : ∀ ds ∈ files, Decl.fitsAll .file ds) (unparsed : List Unparsed) :
    let stubs := (r.extract files).result unparsed
    let declared := Decl.declaredAll stubs.statements
    let retained := (r.extract files).tally.retained
    (∀ kind, ∃ n, stubs.stats.lookup kind = some n ∧ SymbolKey.nameCount declared kind ≤ n ∧
        ((∀ c : ClassKind, kind ≠ c.symbolKind) → n = SymbolKey.nameCount declared kind)) ∧
      ((∀ kind, stubs.stats.lookup kind = some (SymbolKey.nameCount declared kind)) ↔
        ∀ (j k : ClassKind) (name : String), ⟨j.symbolKind, name⟩ ∈ retained →
          ⟨k.symbolKind, name⟩ ∈ retained → j = k) := by
  intro stubs declared retained
  have hlookup (kind : SymbolKind) :
      stubs.stats.lookup kind = some (SymbolKey.nameCount retained kind) :=
    Tally.lookup_stats _ kind
  have hsubset {key : SymbolKey} (h : key ∈ declared) : key ∈ retained :=
    mem_retained_of_mem_declaredAll hfiles h
  have hexact (kind : SymbolKind) :
      SymbolKey.nameCount retained kind = SymbolKey.nameCount declared kind ↔
        ∀ name, ⟨kind, name⟩ ∈ retained → ⟨kind, name⟩ ∈ declared :=
    SymbolKey.nameCount_eq_iff fun _ h => hsubset h
  have hfamily {kind : SymbolKind} {name : String} (h : ⟨kind, name⟩ ∈ retained) :
      ⟨kind, name⟩ ∈ declared ∨ ∃ j k : ClassKind, kind = j.symbolKind ∧
        ⟨k.symbolKind, name⟩ ∈ declared :=
    mem_declaredAll_or_classLike hfiles h
  constructor
  · intro kind
    refine ⟨_, hlookup kind, SymbolKey.nameCount_le fun _ h => hsubset h, ?_⟩
    intro hkind
    apply (hexact kind).2
    intro name hname
    rcases hfamily hname with h | ⟨j, -, hj, -⟩
    · exact h
    · exact absurd hj (hkind j)
  · simp only [hlookup, Option.some.injEq, hexact]
    constructor
    · intro h j k name hj hk
      have heq := eq_of_mem_declaredAll hfiles (h _ _ hj) (h _ _ hk) (symbolKind_ne_globals j)
        (by simp [SymbolKey.inFamily, SymbolKey.family_symbolKind])
      exact ClassKind.symbolKind_injective (congrArg SymbolKey.kind heq)
    · intro h kind name hname
      rcases hfamily hname with hd | ⟨j, k, rfl, hd⟩
      · exact hd
      · rwa [h j k name hname (hsubset hd)]

/-- Where enums are left out, all that was kept stands in the stubs. -/
theorem stats_mixedFiles :
    (∀ ds ∈ mixedFiles, Decl.fitsAll .file ds) ∧
      let r : Request := { selection := { Selection.standard with enums := false } }
      let stubs := (r.extract mixedFiles).result []
      ∀ kind, stubs.stats.lookup kind =
        some (SymbolKey.nameCount (Decl.declaredAll stubs.statements) kind) := by
  have hfiles : ∀ ds ∈ mixedFiles, Decl.fitsAll .file ds := by decide
  refine ⟨hfiles, ?_⟩
  intro r
  have hretained : (r.extract mixedFiles).tally.retained =
      [⟨.functions, "\\N\\f"⟩, ⟨.classes, "\\C"⟩, ⟨.constants, "\\N\\X"⟩, ⟨.globals, "g"⟩] := by
    decide +kernel
  apply (stats_extract r mixedFiles hfiles []).2.2
  rw [hretained]
  intro j k name hj hk
  cases j <;> cases k <;> simp_all [ClassKind.symbolKind]

/-- A class and an interface of one name, each in its own file. -/
def namesakeFiles : List (List Decl) :=
  [[.classLike { kind := .classType, name := some "C" } []],
    [.classLike { kind := .interfaceType, name := some "C" } []]]

theorem stats_namesakeFiles :
    (∀ ds ∈ namesakeFiles, Decl.fitsAll .file ds) ∧
      let stubs := (({} : Request).extract namesakeFiles).result []
      let declared := Decl.declaredAll stubs.statements
      stubs.stats.lookup .classes = some 1 ∧ SymbolKey.nameCount declared .classes = 0 ∧
        stubs.stats.lookup .interfaces = some 1 ∧ SymbolKey.nameCount declared .interfaces = 1 := by
  decide +kernel

end Request

end Stubsmith
