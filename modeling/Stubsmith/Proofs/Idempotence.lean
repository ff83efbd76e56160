import Mathlib.Data.List.Flatten
import Stubsmith.Proofs.Declared
import Stubsmith.Proofs.Reread

namespace Stubsmith

open Candidate Request

variable {r : Request} {c : Candidate} {d : Decl} {n : Nat} {ds : List Decl}
  {seen : List SymbolKey} {kept : List Candidate}

namespace StubOf

variable {stub : Decl}

theorem isLoose_or_isClassLike (h : StubOf r seen c stub) : stub.isLoose ∨ stub.isClassLike := by
  cases h <;> simp [Decl.isLoose, Decl.isClassLike]

theorem fits_stubMember (h : d.fits .member) : (stubMember d).fits .member := by
  cases d with
  | method head body => cases body <;> simp_all [stubMember, Decl.fits, Decl.fitsAll]
  | _ => exact h

/-- A stub may stand where its candidate stands. -/
theorem fits (h : StubOf r seen c stub) (hc : c.decl.fits .statement) : stub.fits .statement := by
  cases h with
  | function => rfl
  | @classLike h body _ hdecl =>
    rw [hdecl, Decl.fits, Bool.and_eq_true] at hc
    rw [Decl.fits, Bool.and_eq_true]
    refine ⟨rfl, Decl.fitsAll_iff.2 ?_⟩
    intro d hd
    obtain ⟨m, hm, rfl⟩ := List.mem_map.1 hd
    exact fits_stubMember (Decl.fitsAll_iff.1 hc.2 m (List.mem_of_mem_filter hm))
  | const => rfl
  | define => rfl
  | assign => rfl

end StubOf

namespace Candidate

theorem fits_opened {place : Option (Nat × String)} (hd : d.fits .statement)
    (hc : c ∈ d.opened place) : c.decl.fits .statement := by
  cases d with
  | guarded condition body =>
    obtain ⟨e, he, rfl⟩ := List.mem_map.1 hc
    rw [Decl.fits, Bool.and_eq_true] at hd
    exact Decl.fitsAll_iff.1 hd.2 e he
  | _ =>
    obtain rfl := List.mem_singleton.1 hc
    exact hd

theorem fits_candidatesFrom (hds : Decl.fitsAll .file ds) (hc : c ∈ Decl.candidatesFrom n ds) :
    c.decl.fits .statement := by
  induction ds generalizing n with
  | nil => simp [Decl.candidatesFrom] at hc
  | cons d ds ih =>
    simp only [Decl.fitsAll, Bool.and_eq_true] at hds
    rcases List.mem_append.1 hc with hc | hc
    · rcases Decl.fits_file_iff.1 hds.1 with ⟨name, body, rfl, hb⟩ | hd
      · obtain ⟨e, he, hc⟩ := List.mem_flatMap.1 hc
        exact fits_opened (Decl.fitsAll_iff.1 hb e he) hc
      · rw [candidates_eq_opened (ne_space_of_fits hd)] at hc
        exact fits_opened hd hc
    · exact ih hds.2 hc

theorem mem_placedIn {place : Option (Nat × String)} :
    d ∈ placedIn place kept ↔
      ∃ c ∈ kept, c.place = place ∧ c.decl.isClassLike = false ∧ c.decl = d := by
  simp [placedIn, and_assoc]

theorem of_mem_spacesFrom {g : Group} (h : g ∈ spacesFrom n kept ds) :
    ∃ m, g.body = placedIn (some (m, g.space)) kept ∧ g.body ≠ [] := by
  induction ds generalizing n with
  | nil => simp [spacesFrom] at h
  | cons d ds ih =>
    cases d with
    | space name body =>
      rw [spacesFrom] at h
      rcases List.mem_append.1 h with h | h
      · obtain ⟨hne, rfl⟩ : ¬(placedIn (some (n, name.getD "")) kept).isEmpty ∧
            g = ⟨name.getD "", placedIn (some (n, name.getD "")) kept⟩ := by simpa using h
        exact ⟨n, rfl, by simpa using hne⟩
      · exact ih h
    | _ => exact ih h

/-- What is kept apart from class-likes, as it stands in the output: in its namespaces and outside
of them. -/
def looseContents (n : Nat) (kept : List Candidate) (ds : List Decl) : List (String × Decl) :=
  (spacesFrom n kept ds).flatMap Group.contents ++ (placedIn none kept).map ("", ·)

theorem looseContents_single (hkept : ∀ c ∈ kept, c.place = d.site n) :
    looseContents n kept [d] = (kept.filter (!·.decl.isClassLike)).map located := by
  have hplaced : (placedIn (d.site n) kept) = (kept.filter (!·.decl.isClassLike)).map decl := by
    rw [placedIn]
    congr 1
    exact List.filter_congr fun c hc => by simp [hkept c hc]
  have hlocated : (placedIn (d.site n) kept).map (((d.site n).map Prod.snd).getD "", ·) =
      (kept.filter (!·.decl.isClassLike)).map located := by
    rw [hplaced, List.map_map]
    apply List.map_congr_left
    intro c hc
    simp [located, space, hkept c (List.mem_of_mem_filter hc)]
  rw [← hlocated]
  cases d with
  | space name body =>
    have hnone : placedIn none kept = [] := by
      apply placedIn_eq_nil
      intro c hc
      simp [hkept c hc, Decl.site]
    cases hbody : placedIn (some (n, name.getD "")) kept <;>
      simp [looseContents, spacesFrom, hnone, Decl.site, hbody, Group.contents]
  | _ => simp [looseContents, spacesFrom, Decl.site]

/-- Whatever is kept apart from class-likes stands in the output just once. -/
theorem looseContents_perm (seen : List SymbolKey) (n : Nat) (ds : List Decl) :
    (looseContents n (r.keptFrom seen (Decl.candidatesFrom n ds)) ds).Perm
      (((r.keptFrom seen (Decl.candidatesFrom n ds)).filter (!·.decl.isClassLike)).map located) := by
  induction ds generalizing n seen with
  | nil => simp [looseContents, Decl.candidatesFrom, keptFrom, spacesFrom, placedIn]
  | cons d ds ih =>
    have hlater := ih (seen ++ (d.candidates n).flatMap r.counted) (n + 1)
    have hfirst := looseContents_single (d := d) fun c (hc : c ∈ r.keptFrom seen (d.candidates n)) =>
      place_of_mem_keptFrom hc
    rw [Decl.candidatesFrom, keptFrom_append, List.filter_append, List.map_append, ← hfirst]
    refine List.Perm.trans ?_ (hlater.append_left _)
    rw [looseContents, spacesFrom_cons (fun c hc => place_of_mem_keptFrom hc)
      fun c hc m space hp => lt_block_of_mem_keptFrom hc hp, placedIn_append]
    simp only [looseContents, List.flatMap_append, List.map_append, List.append_assoc]
    exact (List.perm_append_comm_assoc _ _ _).append_left _

theorem eq_toDecl_of_descriptor? {e : Descriptor} (h : c.descriptor? = some e) :
    c.located = (e.space, e.toDecl) ∧ e = .ofClassLike e.space e.classLike := by
  rw [descriptor?_eq] at h
  obtain ⟨place, guarded, decl⟩ := c
  cases decl with
  | classLike head body =>
    obtain rfl := Option.some.inj h
    exact ⟨rfl, rfl⟩
  | _ => simp [located, describe] at h

theorem flatMap_declaredOnce_located (cs : List Candidate) :
    ((cs.map located).flatMap fun p => p.2.declaredOnce p.1) = cs.flatMap names := by
  rw [List.flatMap_map]
  exact List.flatMap_congr fun c _ => (names_eq_declaredOnce c).symm

/-- What is loose declares no class-like. -/
theorem family_ne_of_isLoose (hd : d.isLoose) {space : String} {key : SymbolKey}
    (hkey : key ∈ d.declared space) : key.kind.family ≠ .classes := by
  have hkind : key.kind = .functions ∨ key.kind = .constants ∨ key.kind = .globals := by
    cases d with
    | classLike h body => simp [Decl.isLoose] at hd
    | assign a =>
      obtain ⟨doc, target, value⟩ := a
      cases target <;> simp_all [Decl.declared]
    | _ => simp_all [Decl.declared] <;> grind
  rcases hkind with h | h | h <;> simp [h, SymbolKind.family]

end Candidate

namespace Request

variable {files : List (List Decl)}

def keptOf (r : Request) (files : List (List Decl)) : List Candidate :=
  r.keptFrom [] (Decl.candidatesFrom 0 files.flatten)

theorem exists_stubOf_of_mem_keptOf (h : c ∈ r.keptOf files) :
    ∃ b later, c.space = b.space ∧ StubOf r later b c.decl := by
  obtain ⟨b, -, later, hplace, hstub⟩ := exists_stubOf_of_mem_keptFrom h
  exact ⟨b, later, by rw [Candidate.space, Candidate.space, hplace], hstub⟩

/-- A class-like that is kept declares its full name. -/
theorem declared_of_mem_keptOf (hc : c ∈ r.keptOf files) {e : Descriptor}
    (he : c.descriptor? = some e) :
    e.toDecl.declared e.space = [⟨e.classLike.head.kind.symbolKind, e.fullName⟩] := by
  obtain ⟨hlocated, hdescribed⟩ := eq_toDecl_of_descriptor? he
  obtain ⟨b, later, -, hstub⟩ := exists_stubOf_of_mem_keptOf hc
  rw [show c.decl = e.toDecl from congrArg Prod.snd hlocated] at hstub
  obtain ⟨name, hname⟩ := Option.isSome_iff_exists.1 hstub.isSome_name
  have hfull : e.fullName = QualifiedName.inNamespace e.space name := by
    rw [hdescribed]
    simp only [Descriptor.ofClassLike, hname, Option.getD_some]
  simp [hfull, Descriptor.toDecl, Decl.declared, hname]

theorem isLoose_of_mem_looseContents {p : String × Decl}
    (h : p ∈ looseContents 0 (r.keptOf files) files.flatten) : p.2.isLoose := by
  obtain ⟨c, hc, rfl⟩ := List.mem_map.1 ((looseContents_perm [] 0 files.flatten).mem_iff.1 h)
  obtain ⟨hc, hclass⟩ := List.mem_filter.1 hc
  obtain ⟨b, later, -, hstub⟩ := exists_stubOf_of_mem_keptOf hc
  exact hstub.isLoose_or_isClassLike.resolve_right (by simpa using hclass)

theorem nodup_declaredOnce_looseContents (r : Request) (files : List (List Decl)) :
    ((looseContents 0 (r.keptOf files) files.flatten).flatMap
      fun p => p.2.declaredOnce p.1).Nodup := by
  apply ((looseContents_perm [] 0 files.flatten).flatMap_right _).nodup_iff.2
  rw [flatMap_declaredOnce_located]
  exact (names_keptFrom _ _).2.sublist (List.filter_sublist.flatMap _)

theorem isLoose_of_mem_placedIn {place : Option (Nat × String)}
    (h : d ∈ placedIn place (r.keptOf files)) : d.isLoose := by
  obtain ⟨c, hc, -, hclass, rfl⟩ := mem_placedIn.1 h
  obtain ⟨b, later, -, hstub⟩ := exists_stubOf_of_mem_keptOf hc
  exact hstub.isLoose_or_isClassLike.resolve_right (by simp [hclass])

section

variable (hfiles : ∀ ds ∈ files, Decl.fitsAll .file ds)

include hfiles

/-- A registered class-like is a stub that was kept. -/
theorem exists_kept_of_mem_descriptors {e : Descriptor}
    (he : e ∈ (r.extract files).classLikes.descriptors) :
    ∃ c ∈ r.keptOf files, c.descriptor? = some e := by
  rw [(follows_extract (r := r) hfiles).2.classLikes] at he
  obtain ⟨before, after, hlist, -⟩ := (Registry.mem_descriptors_insertAll_iff _).1 he
  have hmem : e ∈ (r.keptOf files).filterMap descriptor? := hlist ▸ by simp
  exact List.mem_filterMap.1 hmem

theorem arranged_extract : (r.extract files).Arranged := by
  obtain ⟨hspaces, hx⟩ := follows_extract (r := r) hfiles
  refine ⟨?_, ?_, ?_, ?_, hx.expressions⟩
  · rw [hx.classLikes]
    exact Registry.consistent_insertAll _ Registry.consistent_empty
  · intro e he
    obtain ⟨c, -, hc⟩ := exists_kept_of_mem_descriptors hfiles he
    exact (eq_toDecl_of_descriptor? hc).2
  · intro g hg
    rw [hspaces] at hg
    obtain ⟨m, hbody, hne⟩ := of_mem_spacesFrom hg
    exact ⟨hne, fun d hd => isLoose_of_mem_placedIn (hbody ▸ hd)⟩
  · intro d hd
    rw [hx.statements] at hd
    exact isLoose_of_mem_placedIn hd

/-- The output holds the class-likes in their order and whatever else is kept. -/
theorem contents_extract :
    (r.extract files).contents =
      (r.extract files).classLikes.ordered.map (fun e => (e.space, e.toDecl)) ++
        looseContents 0 (r.keptOf files) files.flatten := by
  obtain ⟨hspaces, hx⟩ := follows_extract (r := r) hfiles
  rw [Extract.contents, Extract.groups, List.flatMap_append,
    Registry.flatMap_contents_groups (arranged_extract hfiles).consistent, List.append_assoc,
    looseContents, hspaces, hx.statements]
  rfl

/-- All that is in the output was kept. -/
theorem exists_kept_of_mem_contents {p : String × Decl} (hp : p ∈ (r.extract files).contents) :
    ∃ c ∈ r.keptOf files, c.located = p := by
  rw [contents_extract hfiles] at hp
  rcases List.mem_append.1 hp with hp | hp
  · obtain ⟨e, he, rfl⟩ := List.mem_map.1 hp
    obtain ⟨c, hc, hce⟩ := exists_kept_of_mem_descriptors hfiles
      ((Registry.ordered_perm (arranged_extract hfiles).consistent).mem_iff.1 he)
    exact ⟨c, hc, (eq_toDecl_of_descriptor? hce).1⟩
  · have hloose := (looseContents_perm [] 0 files.flatten).mem_iff.1 hp
    obtain ⟨c, hc, hcp⟩ := List.mem_map.1 hloose
    exact ⟨c, List.mem_of_mem_filter hc, hcp⟩

/-- No two symbols of the output are the same, globals apart, also where class-likes are of
different kinds. -/
theorem nodup_declaredOnce_contents :
    (((r.extract files).contents.flatMap fun p => p.2.declaredOnce p.1).map
      SymbolKey.inFamily).Nodup := by
  have hconsistent := (arranged_extract (r := r) hfiles).consistent
  have hclassLikes : (((r.extract files).classLikes.ordered.map fun e => (e.space, e.toDecl)).flatMap
        fun p => p.2.declaredOnce p.1).map SymbolKey.inFamily =
      (r.extract files).classLikes.ordered.map fun e => ⟨.classes, e.fullName⟩ := by
    rw [List.flatMap_map, List.map_flatMap, List.map_eq_flatMap]
    apply List.flatMap_congr
    intro e he
    obtain ⟨c, hc, hce⟩ := exists_kept_of_mem_descriptors hfiles
      ((Registry.ordered_perm hconsistent).mem_iff.1 he)
    simp [Decl.declaredOnce, declared_of_mem_keptOf hc hce, symbolKind_ne_globals,
      SymbolKey.inFamily, SymbolKey.family_symbolKind]
  have hfamily : ∀ key ∈ (looseContents 0 (r.keptOf files) files.flatten).flatMap
      (fun p => p.2.declaredOnce p.1), key.kind.family ≠ .classes := by
    intro key hkey
    obtain ⟨p, hp, hkey⟩ := List.mem_flatMap.1 hkey
    exact family_ne_of_isLoose (isLoose_of_mem_looseContents hp) (List.mem_of_mem_filter hkey)
  rw [contents_extract hfiles, List.flatMap_append, List.map_append, hclassLikes]
  refine List.nodup_append.2 ⟨?_, ?_, ?_⟩
  · apply List.Nodup.of_map SymbolKey.name
    rw [List.map_map]
    exact Registry.nodup_names_ordered hconsistent
  · apply (nodup_declaredOnce_looseContents r files).map_on
    intro a ha b _ hab
    exact SymbolKey.eq_of_inFamily hab (hfamily a ha)
  · intro key hkey key' hkey' heq
    obtain ⟨e, -, rfl⟩ := List.mem_map.1 hkey
    obtain ⟨a, ha, rfl⟩ := List.mem_map.1 hkey'
    exact hfamily a ha (congrArg SymbolKey.kind heq).symm

/-- The stubs have the shape of a file. -/
theorem fitsAll_assemble : Decl.fitsAll .file (r.extract files).assemble := by
  have hx := arranged_extract (r := r) hfiles
  have hcontents : ∀ p ∈ (r.extract files).contents, p.2.fits .statement := by
    intro p hp
    obtain ⟨c, hc, rfl⟩ := exists_kept_of_mem_contents hfiles hp
    obtain ⟨b, hb, later, -, hstub⟩ := exists_stubOf_of_mem_keptFrom hc
    exact hstub.fits (fits_candidatesFrom (Decl.fitsAll_flatten hfiles) hb)
  apply Decl.fitsAll_iff.2
  intro d hd
  cases hglobal : (r.extract files).groups.all Group.isGlobal with
  | true =>
    rw [hx.assemble_global hglobal] at hd
    have hmem : ("", d) ∈ (r.extract files).contents := by
      rw [Extract.Arranged.contents_eq_map hglobal]
      exact List.mem_map_of_mem hd
    exact Decl.fits_file_iff.2 (.inr (hcontents _ hmem))
  | false =>
    rw [(hx.reread_parts hglobal).1] at hd
    obtain ⟨g, hg, rfl⟩ := List.mem_map.1 hd
    refine Decl.fits_file_iff.2 (.inl ⟨_, _, rfl, Decl.fitsAll_iff.2 ?_⟩)
    intro d hd
    exact hcontents _ (Extract.Arranged.mem_contents_of_mem_parts hg hd)

/-- What is read back of the stubs is kept as it is. -/
theorem keptOf_assemble :
    r.keptOf [(r.extract files).assemble] = Decl.candidatesFrom 0 (r.extract files).assemble ∧
      ((Decl.candidatesFrom 0 (r.extract files).assemble).flatMap names).Nodup := by
  obtain ⟨hlocated, hguard⟩ := (arranged_extract (r := r) hfiles).reread
  have hnodup : ((Decl.candidatesFrom 0 (r.extract files).assemble).flatMap names).Nodup := by
    rw [← flatMap_declaredOnce_located, hlocated]
    exact (nodup_declaredOnce_contents hfiles).of_map _
  have hsettled : ∀ c ∈ Decl.candidatesFrom 0 (r.extract files).assemble, r.Settled c := by
    intro c hc
    have hmem : c.located ∈ (r.extract files).contents := hlocated ▸ List.mem_map_of_mem hc
    obtain ⟨k, hk, hkc⟩ := exists_kept_of_mem_contents hfiles hmem
    obtain ⟨b, later, hspace, hstub⟩ := exists_stubOf_of_mem_keptOf hk
    exact hstub.settled (by rw [← hkc, located, hspace]) (hguard c hc)
  refine ⟨?_, hnodup⟩
  rw [keptOf, List.flatten_singleton]
  exact keptFrom_eq_self hsettled hnodup (by simp)

end

/-- Symbols that are counted more than once are found by the symbols of what is read. -/
theorem kind_of_mem_duplicates {x : Extract} {cs : List Candidate} {e : Duplicate}
    (hcounts : x.tally.counts = SymbolKey.countTable (cs.flatMap r.counted))
    (hnodup : (cs.flatMap names).Nodup) (he : e ∈ x.tally.duplicates) : e.kind = .globals := by
  rw [Tally.duplicates, hcounts, SymbolKey.countTable, List.filterMap_map] at he
  obtain ⟨key, -, hkey⟩ := List.mem_filterMap.1 he
  obtain ⟨hcount, rfl⟩ : 1 < (cs.flatMap r.counted).count key ∧
      (⟨key.kind, key.name, (cs.flatMap r.counted).count key⟩ : Duplicate) = e := by
    simpa using hkey
  by_contra hkind
  have hcounted : (cs.flatMap r.counted).filter (·.kind != .globals) =
      (cs.flatMap names).filter fun key => r.selection.hasKind key.kind && key.name != "" := by
    rw [List.filter_flatMap, List.filter_flatMap]
    apply List.flatMap_congr
    intro c _
    rw [counted, names, List.filter_filter, List.filter_filter]
    exact List.filter_congr fun k _ => Bool.and_comm _ _
  have hle : ((cs.flatMap r.counted).filter (·.kind != .globals)).count key ≤ 1 := by
    rw [hcounted]
    exact List.nodup_iff_count_le_one.1 (hnodup.sublist List.filter_sublist) key
  rw [List.count_filter (by simpa using hkind)] at hle
  omega

/-- A run over the stubs of a run gives the same stubs, and no symbol but globals is a duplicate
in it. -/
theorem result_extract_statements (r : Request) (files : List (List Decl))
    (hfiles : ∀ ds ∈ files, Decl.fitsAll .file ds) (unparsed unparsed' : List Unparsed) :
    let first := (r.extract files).result unparsed
    let second := (r.extract [first.statements]).result unparsed'
    second.statements = first.statements ∧ ∀ e ∈ second.duplicates, e.kind = .globals := by
  have hshape : ∀ ds ∈ [(r.extract files).assemble], Decl.fitsAll .file ds := by
    intro ds hds
    rw [List.mem_singleton.1 hds]
    exact fitsAll_assemble hfiles
  obtain ⟨hkept, hnodup⟩ := keptOf_assemble (r := r) hfiles
  obtain ⟨hspaces, hy⟩ := follows_extract (r := r) hshape
  simp only [List.flatten_singleton] at hspaces hy
  rw [keptOf, List.flatten_singleton] at hkept
  rw [hkept] at hspaces hy
  simp only [Extract.statements_result, Extract.duplicates_result]
  constructor
  · exact (arranged_extract hfiles).assemble_reread hspaces hy.statements hy.expressions
      hy.classLikes
  · intro e he
    exact kind_of_mem_duplicates hy.tally.counts hnodup he

theorem result_extract_mixedFiles :
    (∀ ds ∈ mixedFiles, Decl.fitsAll .file ds) ∧
      let first := (({} : Request).extract mixedFiles).result []
      let second := (({} : Request).extract [first.statements]).result []
      (second.statements = first.statements ∧ ∀ e ∈ second.duplicates, e.kind = .globals) ∧
        first.statements.length = 2 ∧ first.duplicates.length = 2 ∧ second.duplicates = [] := by
  have hfiles : ∀ ds ∈ mixedFiles, Decl.fitsAll .file ds := by decide
  have hstubs := result_extract_statements {} mixedFiles hfiles [] []
  exact ⟨hfiles, hstubs, by decide +kernel⟩

end Request

end Stubsmith
