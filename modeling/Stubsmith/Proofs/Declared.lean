import Mathlib.Data.List.Dedup
import Stubsmith.Proofs.Settled
import Stubsmith.Proofs.Shape
import Stubsmith.Symbol.Known

namespace Stubsmith

def SymbolKind.family : SymbolKind → SymbolKind
  | .interfaces | .traits | .enums => .classes
  | kind => kind

namespace SymbolKey

def inFamily (key : SymbolKey) : SymbolKey :=
  ⟨key.kind.family, key.name⟩

/-- The form in which two symbols of one program differ: the one under which known symbols are
compared, for all class-likes alike. -/
def canonical (key : SymbolKey) : SymbolKey :=
  .normalized key.kind.family key.name

/-- How many names of a kind are among some symbols. -/
def nameCount (keys : List SymbolKey) (kind : SymbolKind) : Nat :=
  ((keys.filter (·.kind = kind)).map name).dedup.length

end SymbolKey

namespace Decl

/-- The symbols that a statement of a namespace declares. -/
def declared (space : String) : Decl → List SymbolKey
  | .function h _ => [⟨.functions, QualifiedName.inNamespace space h.name⟩]
  | .classLike h _ =>
    h.name.toList.map fun name => ⟨h.kind.symbolKind, QualifiedName.inNamespace space name⟩
  | .const c => c.items.map fun i => ⟨.constants, QualifiedName.inNamespace space i.name⟩
  | .define d => d.name.toList.map fun name => ⟨.constants, QualifiedName.globally name⟩
  | .assign ⟨_, .plain name, _⟩ => [⟨.globals, name⟩]
  | _ => []

/-- The symbols of a statement that stubs declare once only: all but globals. -/
def declaredOnce (space : String) (d : Decl) : List SymbolKey :=
  (d.declared space).filter (·.kind != .globals)

/-- The symbols that the statements of a file declare, in its namespaces and outside of them. -/
def declaredAll (ds : List Decl) : List SymbolKey :=
  (spread ds).flatMap fun p => p.2.declared (p.1.getD "")

end Decl

namespace SymbolKey

variable {a b : SymbolKey} {kind : SymbolKind} {name : String} {keys : List SymbolKey}

theorem kind_normalized (kind : SymbolKind) (name : String) :
    (normalized kind name).kind = kind := by
  cases kind <;> rfl

theorem family_eq_of_canonical (h : a.canonical = b.canonical) : a.kind.family = b.kind.family := by
  have hkind := congrArg SymbolKey.kind h
  simpa only [canonical, kind_normalized] using hkind

theorem canonical_inFamily (h : a.inFamily = b.inFamily) : a.canonical = b.canonical := by
  obtain ⟨hkind, hname⟩ := SymbolKey.mk.inj h
  rw [canonical, canonical, hkind, hname]

theorem family_symbolKind (c : ClassKind) : c.symbolKind.family = .classes := by
  cases c <;> rfl

theorem eq_or_symbolKind_of_family {j k : SymbolKind} (h : j.family = k.family) :
    j = k ∨ ∃ c d : ClassKind, j = c.symbolKind ∧ k = d.symbolKind := by
  have classLike {l : SymbolKind} (hl : l.family = .classes) : ∃ c : ClassKind, l = c.symbolKind := by
    cases l with
    | classes => exact ⟨.classType, rfl⟩
    | interfaces => exact ⟨.interfaceType, rfl⟩
    | traits => exact ⟨.traitType, rfl⟩
    | enums => exact ⟨.enumType, rfl⟩
    | _ => simp [SymbolKind.family] at hl
  by_cases hj : j.family = .classes
  · obtain ⟨c, hc⟩ := classLike hj
    obtain ⟨d, hd⟩ := classLike (h ▸ hj)
    exact .inr ⟨c, d, hc, hd⟩
  · left
    cases j <;> cases k <;> simp_all [SymbolKind.family]

theorem eq_of_inFamily (h : a.inFamily = b.inFamily) (ha : a.kind.family ≠ .classes) : a = b := by
  obtain ⟨hkind, hname⟩ := SymbolKey.mk.inj h
  rcases eq_or_symbolKind_of_family hkind with heq | ⟨c, d, hc, -⟩
  · exact congrArg₂ SymbolKey.mk heq hname
  · exact absurd (hc ▸ family_symbolKind c) ha

theorem ne_globals_of_family {j k : SymbolKind} (h : j.family = k.family) (hj : j ≠ .globals) :
    k ≠ .globals := by
  rintro rfl
  rcases eq_or_symbolKind_of_family h with heq | ⟨c, d, -, hd⟩
  · exact hj heq
  · cases d <;> cases hd

theorem mem_names_of_kind : name ∈ (keys.filter (·.kind = kind)).map SymbolKey.name ↔
    ⟨kind, name⟩ ∈ keys := by
  simp only [List.mem_map, List.mem_filter, decide_eq_true_eq]
  constructor
  · intro h
    obtain ⟨key, ⟨hkey, rfl⟩, rfl⟩ := h
    exact hkey
  · intro h
    exact ⟨_, ⟨h, rfl⟩, rfl⟩

end SymbolKey

namespace Candidate

theorem names_eq_declaredOnce (c : Candidate) : c.names = c.decl.declaredOnce c.space := by
  rw [Decl.declaredOnce]
  cases hd : c.decl with
  | assign a =>
    rw [names_assign hd]
    obtain ⟨doc, target, value⟩ := a
    cases target <;> simp [Decl.declared]
  | _ => simp only [names, symbols, hd, Decl.declared]

end Candidate

/-- What is kept declares its symbols. -/
theorem Request.symbols_of_mem_keptFrom {r : Request} {seen : List SymbolKey} {c : Candidate}
    {cs : List Candidate} (h : c ∈ r.keptFrom seen cs) : c.symbols = c.decl.declared c.space := by
  obtain ⟨b, -, later, stub, hstub, rfl⟩ := eq_stub_of_mem_keptFrom h
  cases hstub with
  -- a guard hides a global, and a global behind one is not kept
  | assign _ unguarded => simp [Candidate.symbols, Decl.declared, unguarded, Request.plainTarget]
  | _ => rfl

end Stubsmith
