import Mathlib.Data.List.Nodup
import Mathlib.Tactic.Tauto
import Stubsmith.Proofs.Acceptance

namespace Stubsmith

namespace Candidate

/-- The symbols of a candidate that are kept once only: all but globals. -/
def names (c : Candidate) : List SymbolKey :=
  c.symbols.filter (·.kind != .globals)

/-- A candidate by its namespace and its declaration alone. -/
def located (c : Candidate) : String × Decl :=
  (c.space, c.decl)

variable {c : Candidate}

theorem mem_names {key : SymbolKey} : key ∈ c.names ↔ key ∈ c.symbols ∧ key.kind ≠ .globals := by
  simp [names]

theorem names_function {h : FunctionHead} {body : List Decl} (hc : c.decl = .function h body) :
    c.names = [⟨.functions, QualifiedName.inNamespace c.space h.name⟩] := by
  simp [names, symbols, hc]

theorem symbolKind_ne_globals (kind : ClassKind) : kind.symbolKind ≠ .globals := by
  cases kind <;> simp [ClassKind.symbolKind]

theorem names_classLike {h : ClassHead} {body : List Decl} {name : String}
    (hc : c.decl = .classLike h body) (hname : h.name = some name) :
    c.names = [⟨h.kind.symbolKind, QualifiedName.inNamespace c.space name⟩] := by
  simp [names, symbols, hc, hname, symbolKind_ne_globals]

theorem names_const {k : ConstDecl} (hc : c.decl = .const k) :
    c.names = Request.itemSymbols c.space k.items := by
  simp [names, symbols, hc, Request.itemSymbols, List.filter_eq_self]

theorem names_define {k : DefineCall} {name : String} (hc : c.decl = .define k)
    (hname : k.name = some name) : c.names = [⟨.constants, QualifiedName.globally name⟩] := by
  simp [names, symbols, hc, hname]

theorem names_assign {a : Assignment} (hc : c.decl = .assign a) : c.names = [] := by
  cases hguard : c.guarded <;> cases htarget : Request.plainTarget a.target <;>
    simp [names, symbols, hc, hguard, htarget]

end Candidate

namespace Request

open Candidate

variable {r : Request} {c : Candidate} {seen : List SymbolKey} {stub : Decl}

theorem isNew_iff {key : SymbolKey} : r.isNew seen key ↔
    r.selection.hasKind key.kind ∧ key ∉ seen ∧ r.environment key.kind key.name = false := by
  simp [isNew, and_assoc]

theorem isNew_append {more : List SymbolKey} {key : SymbolKey} :
    r.isNew (seen ++ more) key ↔ r.isNew seen key ∧ key ∉ more := by
  simp only [isNew_iff, List.mem_append, not_or]
  tauto

theorem stubMember_stubMember (d : Decl) : stubMember (stubMember d) = stubMember d := by
  cases d with
  | method h body => cases body <;> rfl
  | _ => rfl

theorem isInaccessible_stubMember (kind : ClassKind) (extensible : Bool) (d : Decl) :
    isInaccessible kind extensible (stubMember d) = isInaccessible kind extensible d := by
  cases d with
  | method h body => cases body <;> rfl
  | _ => rfl

/-- The members of a stub are all shown again, as they are. -/
theorem stubBody_stubBody (h : ClassHead) (body : List Decl) :
    r.stubBody h (r.stubBody h body) = r.stubBody h body := by
  have hmap (ds : List Decl) : (ds.map stubMember).map stubMember = ds.map stubMember := by
    rw [List.map_map]
    exact List.map_congr_left fun d _ => stubMember_stubMember d
  simp only [stubBody, List.filter_map, Function.comp_def, isInaccessible_stubMember,
    List.filter_filter, Bool.and_self, hmap]

/-- The items kept of a constant statement are new and distinct. -/
theorem newItems_new (space : String) (seen : List SymbolKey) (items : List ConstItem) :
    (∀ key ∈ itemSymbols space (r.newItems space seen items),
        r.isNew seen key ∧ key ∈ itemSymbols space items) ∧
      (itemSymbols space (r.newItems space seen items)).Nodup := by
  induction items generalizing seen with
  | nil => simp [newItems, itemSymbols]
  | cons item items ih =>
    let first : SymbolKey := ⟨.constants, QualifiedName.inNamespace space item.name⟩
    obtain ⟨hnew, hnodup⟩ := ih (seen ++ [first])
    have hlater : ∀ key ∈ itemSymbols space (r.newItems space (seen ++ [first]) items),
        r.isNew seen key ∧ key ∈ itemSymbols space (item :: items) := by
      intro key hkey
      obtain ⟨h, hmem⟩ := hnew key hkey
      exact ⟨(isNew_append.1 h).1, by simp [hmem]⟩
    have hitems : r.newItems space seen (item :: items) =
        if r.isNew seen first then item :: r.newItems space (seen ++ [first]) items
        else r.newItems space (seen ++ [first]) items := by
      by_cases h : r.isNew seen first <;> simp [newItems, first, h]
    rw [hitems]
    by_cases hfirst : r.isNew seen first
    · rw [if_pos hfirst, itemSymbols_cons]
      have hnot : first ∉ itemSymbols space (r.newItems space (seen ++ [first]) items) :=
        fun h => (isNew_append.1 (hnew _ h).1).2 (by simp)
      refine ⟨?_, List.nodup_cons.2 ⟨hnot, hnodup⟩⟩
      intro key hkey
      rcases List.mem_cons.1 hkey with rfl | hkey
      · exact ⟨hfirst, by simp⟩
      · exact hlater key hkey
    · rw [if_neg hfirst]
      exact ⟨hlater, hnodup⟩

theorem newItems_eq_self {space : String} {items : List ConstItem}
    (hnew : ∀ key ∈ itemSymbols space items, r.isNew seen key)
    (hnodup : (itemSymbols space items).Nodup) : r.newItems space seen items = items := by
  induction items generalizing seen with
  | nil => rfl
  | cons item items ih =>
    rw [itemSymbols_cons] at hnew hnodup
    obtain ⟨hnot, hnodup⟩ := List.nodup_cons.1 hnodup
    have hfirst := hnew _ (List.mem_cons_self ..)
    rw [newItems, ih ?_ hnodup]
    · simp only [hfirst, if_true, List.singleton_append]
    · intro key hkey
      refine isNew_append.2 ⟨hnew key (List.mem_cons_of_mem _ hkey), fun h => hnot ?_⟩
      rwa [← List.mem_singleton.1 h]

/-- Another pass keeps a candidate as it is, as long as its symbols are new. -/
def Settled (r : Request) (c : Candidate) : Prop :=
  ∀ seen, c.names.Nodup → (∀ key ∈ c.names, key ∉ seen) → r.kept? seen c = some c

theorem isNew_of_isNew {later : List SymbolKey} {key : SymbolKey} (h : r.isNew seen key)
    (hkey : key ∉ later) : r.isNew later key := by
  obtain ⟨hkind, -, henv⟩ := isNew_iff.1 h
  exact isNew_iff.2 ⟨hkind, hkey, henv⟩

end Request

namespace StubOf

open Request Candidate

variable {r : Request} {c d : Candidate} {seen : List SymbolKey} {stub : Decl}

/-- A stub is settled where no guard is around it. -/
theorem settled (h : StubOf r seen c stub) (hd : d.located = (c.space, stub))
    (hguard : d.guarded = false) : r.Settled d := by
  obtain ⟨hspace, hdecl⟩ := Prod.ext_iff.1 hd
  simp only [located] at hspace hdecl
  intro later hnodup hfree
  suffices hstub : StubOf r later d stub by
    rw [kept?, stub?_eq_some_iff.2 hstub, Option.map_some, ← hdecl]
  cases h with
  | function _ new =>
    exact .function hdecl (isNew_of_isNew (hspace ▸ new) (hfree _ (by simp [names_function hdecl])))
  | @classLike h body name _ named new =>
    have hstub : StubOf r later d (.classLike h (r.stubBody h (r.stubBody h body))) :=
      .classLike hdecl named
        (isNew_of_isNew (hspace ▸ new) (hfree _ (by simp [names_classLike hdecl named])))
    rwa [stubBody_stubBody] at hstub
  | @const k _ some_new =>
    have hnew := (newItems_new (r := r) c.space seen k.items).1
    have hitems : r.newItems d.space later (r.newItems c.space seen k.items) =
        r.newItems c.space seen k.items := by
      rw [names_const hdecl, hspace] at hnodup hfree
      rw [hspace]
      exact newItems_eq_self
        (fun key hkey => isNew_of_isNew (hnew key hkey).1 (hfree key hkey)) hnodup
    have hstub : StubOf r later d (.const { k with
        items := r.newItems d.space later (r.newItems c.space seen k.items) }) :=
      .const hdecl (by rwa [hitems])
    rwa [hitems] at hstub
  | define _ named new =>
    exact .define hdecl named (isNew_of_isNew new (hfree _ (by simp [names_define hdecl named])))
  | @assign a name _ _ target selected =>
    have hstub : StubOf r later d _ := .assign hdecl hguard rfl selected
    cases hnull : r.options.nullifyGlobals <;> simpa [hnull] using hstub

theorem mem_counted_of_isNew {key : SymbolKey} (h : r.isNew seen key) (hkey : key ∈ c.symbols)
    (hname : key.name ≠ "") : key ∈ r.counted c := by
  simp [counted, hkey, (isNew_iff.1 h).1, hname]

/-- The symbols of a stub are distinct, they are new, and they are counted. -/
theorem names_new (h : StubOf r seen c stub) (hd : d.located = (c.space, stub)) :
    d.names.Nodup ∧ ∀ key ∈ d.names, r.isNew seen key ∧ key ∈ r.counted c := by
  obtain ⟨hspace, hdecl⟩ := Prod.ext_iff.1 hd
  simp only [located] at hspace hdecl
  have single {key : SymbolKey} (hnames : d.names = [key]) (new : r.isNew seen key)
      (hsymbols : c.symbols = [key]) (hname : key.name ≠ "") :
      d.names.Nodup ∧ ∀ key ∈ d.names, r.isNew seen key ∧ key ∈ r.counted c := by
    rw [hnames]
    refine ⟨by simp, ?_⟩
    intro k hk
    obtain rfl := List.mem_singleton.1 hk
    exact ⟨new, mem_counted_of_isNew new (by simp [hsymbols]) hname⟩
  cases h with
  | function hc new =>
    exact single (hspace ▸ names_function hdecl) new (by simp [symbols, hc])
      (QualifiedName.inNamespace_ne _ _)
  | classLike hc named new =>
    exact single (hspace ▸ names_classLike hdecl named) new (by simp [symbols, hc, named])
      (QualifiedName.inNamespace_ne _ _)
  | @const k hc some_new =>
    obtain ⟨hnew, hnodup⟩ := newItems_new (r := r) c.space seen k.items
    rw [names_const hdecl, hspace]
    refine ⟨hnodup, ?_⟩
    intro key hkey
    obtain ⟨new, hmem⟩ := hnew key hkey
    have hsymbols : key ∈ c.symbols := (mem_names.1 (names_const hc ▸ hmem)).1
    refine ⟨new, mem_counted_of_isNew new hsymbols ?_⟩
    obtain ⟨item, -, rfl⟩ := List.mem_map.1 hmem
    exact QualifiedName.inNamespace_ne _ _
  | define hc named new =>
    exact single (names_define hdecl named) new (by simp [symbols, hc, named])
      (QualifiedName.globally_ne _)
  | assign hc unguarded target selected =>
    simp [names_assign hdecl]

end StubOf

namespace Request

open Candidate

variable {r : Request} {seen : List SymbolKey} {cs : List Candidate}

/-- Nothing that is kept has a symbol that was counted before, and no two symbols are the same,
globals apart. -/
theorem names_keptFrom (seen : List SymbolKey) (cs : List Candidate) :
    (∀ key ∈ (r.keptFrom seen cs).flatMap names, key ∉ seen) ∧
      ((r.keptFrom seen cs).flatMap names).Nodup := by
  induction cs generalizing seen with
  | nil => simp [keptFrom]
  | cons c cs ih =>
    obtain ⟨hfree, hnodup⟩ := ih (seen ++ r.counted c)
    rw [keptFrom, List.flatMap_append]
    have hrest : ∀ key ∈ (r.keptFrom (seen ++ r.counted c) cs).flatMap names,
        key ∉ seen ∧ key ∉ r.counted c := by
      intro key hkey
      simpa using hfree key hkey
    cases hstub : r.stub? seen c with
    | none =>
      simp only [kept?, hstub, Option.map_none, Option.toList_none, List.flatMap_nil, List.nil_append]
      exact ⟨fun key hkey => (hrest key hkey).1, hnodup⟩
    | some stub =>
      obtain ⟨hdistinct, hnew⟩ :=
        (stub?_eq_some_iff.1 hstub).names_new (d := { c with decl := stub }) rfl
      simp only [kept?, hstub, Option.map_some, Option.toList_some, List.flatMap_singleton]
      constructor
      · intro key hkey
        rcases List.mem_append.1 hkey with hkey | hkey
        · exact (isNew_iff.1 (hnew key hkey).1).2.1
        · exact (hrest key hkey).1
      · refine List.nodup_append.2 ⟨hdistinct, hnodup, ?_⟩
        rintro key hkey _ hlater rfl
        exact (hrest key hlater).2 (hnew key hkey).2

/-- A pass keeps settled candidates as they are if no two symbols are the same, globals apart. -/
theorem keptFrom_eq_self (hsettled : ∀ c ∈ cs, r.Settled c) (hnodup : (cs.flatMap names).Nodup)
    (hfree : ∀ key ∈ cs.flatMap names, key ∉ seen) : r.keptFrom seen cs = cs := by
  induction cs generalizing seen with
  | nil => rfl
  | cons c cs ih =>
    rw [List.flatMap_cons] at hnodup hfree
    obtain ⟨hdistinct, hrest, hdisjoint⟩ := List.nodup_append.1 hnodup
    have hc := hsettled c (by simp) seen hdistinct fun key hkey => hfree key (by simp [hkey])
    rw [keptFrom, hc, ih (fun d hd => hsettled d (by simp [hd])) hrest]
    · rfl
    · intro key hkey hmem
      rcases List.mem_append.1 hmem with hmem | hmem
      · exact hfree key (List.mem_append_right _ hkey) hmem
      · obtain ⟨d, -, hd⟩ := List.mem_flatMap.1 hkey
        have hsymbols : key ∈ c.symbols := (List.mem_filter.1 hmem).1
        exact hdisjoint key (mem_names.2 ⟨hsymbols, (mem_names.1 hd).2⟩) key hkey rfl

end Request

end Stubsmith
