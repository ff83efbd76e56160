import Stubsmith.Extract.Keep
import Stubsmith.Extract.Pass
import Stubsmith.Proofs.CountTable

namespace Stubsmith

/-- A declaration that stands where it may be kept: at the top level, directly in a namespace, or
there behind one guard. -/
structure Candidate where
  /-- The namespace that it stands in, if any: the number of it among all declarations of the top
  level, and its name. -/
  place : Option (Nat × String)
  guarded : Bool
  decl : Decl

namespace Decl

def isClassLike : Decl → Bool
  | .classLike .. => true
  | _ => false

/-- The candidates that a statement stands for: what is behind it if it is a guard, else itself. -/
def opened (place : Option (Nat × String)) : Decl → List Candidate
  | .guarded _ body => body.map fun d => ⟨place, true, d⟩
  | d => [⟨place, false, d⟩]

/-- The candidates of a declaration of the top level, given its number. -/
def candidates (n : Nat) : Decl → List Candidate
  | .space name body => body.flatMap (opened (some (n, name.getD "")))
  | d => opened none d

/-- The place of the candidates of a declaration of the top level, given its number. -/
def site (n : Nat) : Decl → Option (Nat × String)
  | .space name _ => some (n, name.getD "")
  | _ => none

/-- The candidates of declarations of the top level that are numbered from `n` on. -/
def candidatesFrom (n : Nat) : List Decl → List Candidate
  | [] => []
  | d :: ds => d.candidates n ++ candidatesFrom (n + 1) ds

end Decl

def Selection.hasKind (s : Selection) : SymbolKind → Bool
  | .functions => s.functions
  | .classes => s.classes
  | .interfaces => s.interfaces
  | .traits => s.traits
  | .enums => s.enums
  | .constants => s.constants
  | .globals => s.hasGlobals

namespace Candidate

def space (c : Candidate) : String :=
  (c.place.map Prod.snd).getD ""

@[simp]
theorem space_with_decl (c : Candidate) (d : Decl) :
    ({ c with decl := d } : Candidate).space = c.space :=
  rfl

/-- The symbols that a candidate declares. A guard hides globals, and only plain variables are
globals. -/
def symbols (c : Candidate) : List SymbolKey :=
  match c.decl with
  | .function h _ => [⟨.functions, QualifiedName.inNamespace c.space h.name⟩]
  | .classLike h _ =>
    h.name.toList.map fun name => ⟨h.kind.symbolKind, QualifiedName.inNamespace c.space name⟩
  | .const k => k.items.map fun i => ⟨.constants, QualifiedName.inNamespace c.space i.name⟩
  | .define d => d.name.toList.map fun name => ⟨.constants, QualifiedName.globally name⟩
  | .assign a =>
    if c.guarded then []
    else
      match Request.plainTarget a.target with
      | .plain name => [⟨.globals, name⟩]
      | _ => []
  | _ => []

def descriptor? (c : Candidate) : Option Descriptor :=
  match c.decl with
  | .classLike h body => some (.ofClassLike c.space ⟨h, body⟩)
  | _ => none

end Candidate

namespace Request

variable (r : Request)

def counted (c : Candidate) : List SymbolKey :=
  c.symbols.filter fun key => r.selection.hasKind key.kind && key.name != ""

/-- Whether a symbol is kept when `seen` have been counted before it. -/
def isNew (seen : List SymbolKey) (key : SymbolKey) : Bool :=
  r.selection.hasKind key.kind && !seen.contains key && !r.environment key.kind key.name

/-- The items of a constant statement whose symbols are kept. -/
def newItems (space : String) (seen : List SymbolKey) : List ConstItem → List ConstItem
  | [] => []
  | item :: items =>
    let key := ⟨.constants, QualifiedName.inNamespace space item.name⟩
    (if r.isNew seen key then [item] else []) ++ newItems space (seen ++ [key]) items

def stubMember : Decl → Decl
  | .method h (some _) => .method h (some [])
  | d => d

/-- The members that a stub of a class-like shows. -/
def stubBody (h : ClassHead) (body : List Decl) : List Decl :=
  (body.filter fun d =>
    r.options.keepInaccessible || !isInaccessible h.kind h.isExtensible d).map stubMember

/-- The stub of a candidate, if it is kept when `seen` have been counted before it. -/
def stub? (seen : List SymbolKey) (c : Candidate) : Option Decl :=
  match c.decl with
  | .function h _ => if c.symbols.any (r.isNew seen) then some (.function h []) else none
  | .classLike h body =>
    if c.symbols.any (r.isNew seen) then some (.classLike h (r.stubBody h body)) else none
  | .define d => if c.symbols.any (r.isNew seen) then some (.define d) else none
  | .const k =>
    match r.newItems c.space seen k.items with
    | [] => none
    | items => some (.const { k with items := items })
  | .assign a =>
    if c.guarded then none
    else
      match plainTarget a.target with
      | .plain name =>
        if r.selection.hasGlobal a.doc.isSome then
          some (.assign { a with
            target := .plain name
            value := if r.options.nullifyGlobals then "null" else a.value })
        else none
      | _ => none
  | _ => none

/-- The candidate with its stub in place, if it is kept. -/
def kept? (seen : List SymbolKey) (c : Candidate) : Option Candidate :=
  (r.stub? seen c).map fun d => { c with decl := d }

/-- The candidates that are kept, as stubs, when `seen` have been counted before them. -/
def keptFrom (seen : List SymbolKey) : List Candidate → List Candidate
  | [] => []
  | c :: cs => (r.kept? seen c).toList ++ keptFrom (seen ++ r.counted c) cs

end Request

namespace Candidate

/-- What stays at one place of the output of what is kept: class-likes go elsewhere. -/
def placedIn (place : Option (Nat × String)) (kept : List Candidate) : List Decl :=
  (kept.filter fun c => c.place == place && !c.decl.isClassLike).map decl

/-- The namespaces, of declarations of the top level that are numbered from `n` on, in which
something stays of what is kept. -/
def spacesFrom (n : Nat) (kept : List Candidate) : List Decl → List Group
  | [] => []
  | .space name _ :: ds =>
    let body := placedIn (some (n, name.getD "")) kept
    (if body.isEmpty then [] else [⟨name.getD "", body⟩]) ++ spacesFrom (n + 1) kept ds
  | _ :: ds => spacesFrom (n + 1) kept ds

end Candidate

structure FlatPass where
  counts : List (SymbolKey × Nat)
  retained : List SymbolKey
  spaces : List Group
  statements : List Decl
  classLikes : Registry

/-- The pass over the candidates of some files. -/
def Request.flatPass (r : Request) (files : List (List Decl)) : FlatPass :=
  let candidates := Decl.candidatesFrom 0 files.flatten
  let kept := r.keptFrom [] candidates
  { counts := SymbolKey.countTable (candidates.flatMap r.counted)
    retained := SymbolKey.sortedSet (kept.flatMap Candidate.symbols)
    spaces := Candidate.spacesFrom 0 kept files.flatten
    statements := Candidate.placedIn none kept
    classLikes := Registry.insertAll {} (kept.filterMap Candidate.descriptor?) }

/-- How a stub comes from a candidate that is kept when `seen` have been counted before it. -/
inductive StubOf (r : Request) (seen : List SymbolKey) (c : Candidate) : Decl → Prop where
  | function {h : FunctionHead} {body : List Decl} (decl : c.decl = .function h body)
      (new : r.isNew seen ⟨.functions, QualifiedName.inNamespace c.space h.name⟩) :
      StubOf r seen c (.function h [])
  | classLike {h : ClassHead} {body : List Decl} {name : String} (decl : c.decl = .classLike h body)
      (named : h.name = some name)
      (new : r.isNew seen ⟨h.kind.symbolKind, QualifiedName.inNamespace c.space name⟩) :
      StubOf r seen c (.classLike h (r.stubBody h body))
  | const {k : ConstDecl} (decl : c.decl = .const k)
      (some_new : r.newItems c.space seen k.items ≠ []) :
      StubOf r seen c (.const { k with items := r.newItems c.space seen k.items })
  | define {d : DefineCall} {name : String} (decl : c.decl = .define d) (named : d.name = some name)
      (new : r.isNew seen ⟨.constants, QualifiedName.globally name⟩) : StubOf r seen c (.define d)
  | assign {a : Assignment} {name : String} (decl : c.decl = .assign a)
      (unguarded : c.guarded = false) (target : Request.plainTarget a.target = .plain name)
      (selected : r.selection.hasGlobal a.doc.isSome) :
      StubOf r seen c (.assign { a with
        target := .plain name
        value := if r.options.nullifyGlobals then "null" else a.value })

theorem stub?_eq_some_iff {r : Request} {seen : List SymbolKey} {c : Candidate} {d : Decl} :
    r.stub? seen c = some d ↔ StubOf r seen c d := by
  constructor
  · intro h
    cases hc : c.decl with
    | function head body =>
      simp only [Request.stub?, Candidate.symbols, hc, List.any_cons, List.any_nil, Bool.or_false,
        Option.ite_none_right_eq_some, Option.some.injEq] at h
      obtain ⟨hnew, rfl⟩ := h
      exact .function hc hnew
    | classLike head body =>
      cases hname : head.name with
      | none => simp [Request.stub?, Candidate.symbols, hc, hname] at h
      | some name =>
        simp only [Request.stub?, Candidate.symbols, hc, hname, Option.toList_some, List.map_cons,
          List.map_nil, List.any_cons, List.any_nil, Bool.or_false, Option.ite_none_right_eq_some,
          Option.some.injEq] at h
        obtain ⟨hnew, rfl⟩ := h
        exact .classLike hc hname hnew
    | const k =>
      have hne : r.newItems c.space seen k.items ≠ [] := by
        intro hnil
        simp [Request.stub?, hc, hnil] at h
      obtain rfl : .const { k with items := r.newItems c.space seen k.items } = d := by
        simpa [Request.stub?, hc] using h
      exact .const hc hne
    | define call =>
      cases hname : call.name with
      | none => simp [Request.stub?, Candidate.symbols, hc, hname] at h
      | some name =>
        simp only [Request.stub?, Candidate.symbols, hc, hname, Option.toList_some, List.map_cons,
          List.map_nil, List.any_cons, List.any_nil, Bool.or_false, Option.ite_none_right_eq_some,
          Option.some.injEq] at h
        obtain ⟨hnew, rfl⟩ := h
        exact .define hc hname hnew
    | assign a =>
      cases hguard : c.guarded with
      | true => simp [Request.stub?, hc, hguard] at h
      | false =>
        cases htarget : Request.plainTarget a.target with
        | plain name =>
          simp only [Request.stub?, hc, hguard, htarget, Bool.false_eq_true, if_false,
            Option.ite_none_right_eq_some, Option.some.injEq] at h
          obtain ⟨hsel, rfl⟩ := h
          exact .assign hc hguard htarget hsel
        | globalsEntry key literal => simp [Request.stub?, hc, hguard, htarget] at h
        | place text => simp [Request.stub?, hc, hguard, htarget] at h
    | _ => simp [Request.stub?, hc] at h
  · rintro (⟨hc, hnew⟩ | ⟨hc, hname, hnew⟩ | ⟨hc, hne⟩ | ⟨hc, hname, hnew⟩ |
      ⟨hc, hguard, htarget, hsel⟩)
    · simp [Request.stub?, Candidate.symbols, hc, hnew]
    · simp [Request.stub?, Candidate.symbols, hc, hname, hnew]
    · simp [Request.stub?, hc]
    · simp [Request.stub?, Candidate.symbols, hc, hname, hnew]
    · simp [Request.stub?, hc, hguard, htarget, hsel]

theorem StubOf.isStatement {r : Request} {seen : List SymbolKey} {c : Candidate} {d : Decl}
    (h : StubOf r seen c d) : d.isStatement := by
  cases h <;> rfl

theorem StubOf.isSome_name {r : Request} {seen : List SymbolKey} {c : Candidate} {h : ClassHead}
    {body : List Decl} (hstub : StubOf r seen c (.classLike h body)) : h.name.isSome := by
  cases hstub with
  | classLike _ named => simp [named]

/-- What is kept is a candidate with a stub of it for its declaration. -/
theorem eq_stub_of_mem_keptFrom {r : Request} {seen : List SymbolKey} {c : Candidate}
    {cs : List Candidate} (h : c ∈ r.keptFrom seen cs) :
    ∃ b ∈ cs, ∃ later stub, StubOf r later b stub ∧ c = { b with decl := stub } := by
  induction cs generalizing seen with
  | nil => simp [Request.keptFrom] at h
  | cons b cs ih =>
    rcases List.mem_append.1 h with h | h
    · obtain ⟨stub, hstub, rfl⟩ :
          ∃ stub, r.stub? seen b = some stub ∧ { b with decl := stub } = c := by
        simpa [Request.kept?] using h
      exact ⟨b, by simp, seen, stub, stub?_eq_some_iff.1 hstub, rfl⟩
    · obtain ⟨b', hb', later, stub, hstub, hc⟩ := ih h
      exact ⟨b', by simp [hb'], later, stub, hstub, hc⟩

theorem exists_stubOf_of_mem_keptFrom {r : Request} {seen : List SymbolKey} {c : Candidate}
    {cs : List Candidate} (h : c ∈ r.keptFrom seen cs) :
    ∃ b ∈ cs, ∃ later, c.place = b.place ∧ StubOf r later b c.decl := by
  obtain ⟨b, hb, later, stub, hstub, rfl⟩ := eq_stub_of_mem_keptFrom h
  exact ⟨b, hb, later, rfl, hstub⟩

end Stubsmith
