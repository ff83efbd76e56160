import Stubsmith.Proofs.Resolution

namespace Stubsmith

namespace Scope

open Syntax

/-- What happens to a scope while a file is read: a namespace starts, or something is imported. -/
inductive Change where
  | start (name : Option String)
  | add (i : Import)
deriving DecidableEq, Repr

def Change.applyTo : Change → Scope → Scope
  | .start name, _ => .start name
  | .add i, s => i.addTo s

/-- The scope that some changes lead to from the start of a file. -/
def reached (changes : List Change) : Scope :=
  changes.foldl (fun s c => c.applyTo s) {}

/-- The imports behind the last start of a namespace. -/
def sectionImports (changes : List Change) : List Import :=
  changes.foldl (fun imports c =>
    match c with
    | .start _ => []
    | .add i => imports ++ [i]) []

/-- The scope in the same namespace where nothing is imported. -/
def withoutImports (s : Scope) : Scope :=
  { s with targets := [] }

/-- Whether a name resolves to a fully qualified one, or to itself with a reason, and what it
resolves to stays as it is without the imports. -/
def StaysResolved (resolve : Scope → String → String) (s : Scope) (name : String)
    (reason : Prop) : Prop :=
  resolve s.withoutImports (resolve s name) = resolve s name ∧
    ((resolve s name).toList.head? = some '\\' ∨ resolve s name = name ∧ reason)

/-- Names that mean a class by where they stand. -/
def specialNames : List String :=
  ["self", "parent", "static"]

/-- Names of types that are no classes. -/
def builtinTypes : List String :=
  ["array", "bool", "callable", "false", "float", "int", "iterable", "mixed", "never", "null",
    "object", "string", "true", "void"]

def literalConstants : List String :=
  ["true", "false", "null"]

/-- Whether a name is one of some words, in letters of any case. -/
def IsAmong (words : List String) (name : String) : Prop :=
  ∃ word ∈ words, name.toList.map Char.toLower = word.toList

/-- Whether a name stands between double underscores and in no namespace. -/
def IsMagic (name : String) : Prop :=
  ∃ middle, name = "__" ++ middle ++ "__" ∧ middle ≠ "" ∧ '\\' ∉ middle.toList

variable {s : Scope} {kind : ImportKind} {name : String} {changes : List Change}

theorem reached_concat (changes : List Change) (c : Change) :
    reached (changes ++ [c]) = c.applyTo (reached changes) := by
  simp [reached]

theorem sectionImports_start (changes : List Change) (name : Option String) :
    sectionImports (changes ++ [.start name]) = [] := by
  simp [sectionImports]

theorem sectionImports_add (changes : List Change) (i : Import) :
    sectionImports (changes ++ [.add i]) = sectionImports changes ++ [i] := by
  simp [sectionImports]

/-- All that counts of the changes is the last start of a namespace and what was imported since. -/
theorem reached_eq (changes : List Change) :
    ∃ given, reached changes = (start given).after (sectionImports changes) := by
  induction changes using List.reverseRecOn with
  | nil => exact ⟨none, rfl⟩
  | append_singleton changes c ih =>
    rw [reached_concat]
    cases c with
    | start name => exact ⟨name, by rw [sectionImports_start]; rfl⟩
    | add i =>
      obtain ⟨given, h⟩ := ih
      refine ⟨given, ?_⟩
      rw [sectionImports_add, after_append, ← h]
      rfl

theorem imported?_reached_eq_none_iff :
    (reached changes).imported? kind name = none ↔
      ∀ i ∈ sectionImports changes, ¬i.Covers kind name := by
  obtain ⟨given, h⟩ := reached_eq changes
  rw [h, imported?_eq_none_iff_covers]

theorem isAmong_iff {words : List String} : IsAmong words name ↔ Text.lowercase name ∈ words := by
  simp only [IsAmong, ← Text.lowercase_eq_iff, exists_eq_right']

theorem isReservedClass_iff :
    isReservedClass name ↔ IsAmong specialNames name ∨ IsAmong builtinTypes name := by
  rw [isAmong_iff, isAmong_iff, ← List.mem_append, isReservedClass, List.contains_iff_mem]
  rfl

theorem isLiteral_iff : isLiteral name ↔ IsAmong literalConstants name := by
  rw [isAmong_iff, isLiteral, List.contains_iff_mem]
  rfl

theorem isSome_stripPrefix?_underscores {cs : List Char} :
    (Text.stripPrefix? ['_', '_'] cs).isSome ↔ ∃ rest, cs = '_' :: '_' :: rest := by
  constructor
  · intro h
    rcases cs with _ | ⟨a, _ | ⟨b, rest⟩⟩
    · cases h
    · by_cases ha : '_' = a <;> simp [Text.stripPrefix?, ha] at h
    · by_cases ha : '_' = a
      · by_cases hb : '_' = b
        · exact ⟨rest, by rw [← ha, ← hb]⟩
        · simp [Text.stripPrefix?, hb] at h
      · simp [Text.stripPrefix?, ha] at h
  · rintro ⟨rest, rfl⟩
    rfl

/-- A text that begins and ends with two underscores has them twice, or is too short for that. -/
theorem eq_underscores_around {cs rest front : List Char} (hfirst : cs = '_' :: '_' :: rest)
    (hlast : cs.reverse = '_' :: '_' :: front) :
    cs = ['_', '_'] ∨ cs = ['_', '_', '_'] ∨
      ∃ middle, cs = '_' :: '_' :: middle ++ ['_', '_'] := by
  subst hfirst
  rw [List.reverse_cons, List.reverse_cons] at hlast
  have hrest : rest = rest.reverse.reverse := (List.reverse_reverse rest).symm
  rcases hreverse : rest.reverse with _ | ⟨a, _ | ⟨b, more⟩⟩
  · rw [hreverse] at hrest
    exact .inl (by rw [hrest]; rfl)
  · rw [hreverse] at hrest hlast
    simp at hlast
    exact .inr (.inl (by rw [hrest, hlast.1]; rfl))
  · rw [hreverse] at hrest hlast
    simp at hlast
    exact .inr (.inr ⟨more.reverse, by rw [hrest, hlast.1, hlast.2.1]; simp⟩)

theorem isMagicConstant_iff : isMagicConstant name ↔ IsMagic name := by
  have hread : isMagicConstant name ↔ 4 < name.utf8ByteSize ∧
      (∃ rest, name.toList = '_' :: '_' :: rest) ∧
      (∃ front, name.toList.reverse = '_' :: '_' :: front) ∧ '\\' ∉ name.toList := by
    simp [isMagicConstant, Text.stripSuffix?, isSome_stripPrefix?_underscores, and_assoc]
  rw [hread]
  constructor
  · rintro ⟨hsize, ⟨rest, hfirst⟩, ⟨front, hlast⟩, hplain⟩
    have hname : name = String.ofList name.toList := String.ofList_toList.symm
    rcases eq_underscores_around hfirst hlast with h | h | ⟨middle, h⟩
    · rw [hname, h] at hsize
      exact absurd hsize (by decide)
    · rw [hname, h] at hsize
      exact absurd hsize (by decide)
    · refine ⟨String.ofList middle, ?_, ?_, ?_⟩
      · rw [← String.toList_inj, h]
        simp
      · intro hempty
        rw [hname, h] at hsize
        simp at hempty
        rw [hempty] at hsize
        exact absurd hsize (by decide)
      · intro hmem
        apply hplain
        rw [h]
        simpa using hmem
  · rintro ⟨middle, rfl, hmiddle, hplain⟩
    have hsize : middle.utf8ByteSize ≠ 0 := by simpa using hmiddle
    refine ⟨?_, ⟨middle.toList ++ ['_', '_'], ?_⟩, ⟨middle.toList.reverse ++ ['_', '_'], ?_⟩, ?_⟩
    · have hunderscores : "__".utf8ByteSize = 2 := by decide
      rw [String.utf8ByteSize_append, String.utf8ByteSize_append, hunderscores]
      omega
    · simp
    · simp
    · simpa using hplain

theorem isLiteral_of_mem (h : '\\' ∈ name.toList) : isLiteral name = false := by
  have hplain : ∀ word ∈ ["true", "false", "null"], '\\' ∉ word.toList := by decide
  rw [isLiteral, List.contains_eq_mem, decide_eq_false_iff_not]
  intro hmem
  exact hplain _ hmem (Text.mem_lowercase.2 h)

theorem isMagicConstant_of_mem (h : '\\' ∈ name.toList) : isMagicConstant name = false := by
  simp [isMagicConstant, h]

/-- A function or constant resolves to a fully qualified name, or it waits for the fallback. -/
theorem head?_of_fallback (s : Scope) (kind : ImportKind) (name : String) :
    let result := (s.resolve? kind name).getD (s.fallback name)
    result.toList.head? = some '\\' ∨
      result = name ∧ '\\' ∉ name.toList ∧ s.space.isSome ∧ s.imported? kind name = none := by
  cases h : s.resolve? kind name with
  | some result => exact .inl (head?_of_resolve? h)
  | none =>
    obtain ⟨hplain, hfree⟩ := resolve?_eq_none_iff.1 h
    cases hspace : s.space with
    | none => simp [fallback, hspace]
    | some space => simp [fallback, hspace, hplain, hfree]

/-- Without imports a fully qualified name stays, and so does one that waits for the fallback. -/
theorem fallback_withoutImports (kind : ImportKind)
    (h : name.toList.head? = some '\\' ∨ '\\' ∉ name.toList ∧ s.space.isSome) :
    (s.withoutImports.resolve? kind name).getD (s.withoutImports.fallback name) = name := by
  rcases h with hhead | ⟨hplain, hspace⟩
  · rw [resolve?_of_head kind hhead]
    rfl
  · have hnone : s.withoutImports.resolve? kind name = none := resolve?_eq_none_iff.2 ⟨hplain, rfl⟩
    obtain ⟨space, hspace⟩ := Option.isSome_iff_exists.1 hspace
    rw [hnone, withoutImports, fallback, hspace]
    rfl

theorem staysResolved_resolveClass (s : Scope) (name : String) :
    StaysResolved resolveClass s name (isReservedClass name) := by
  cases hfree : isReservedClass name with
  | true =>
    have hself : ∀ t : Scope, t.resolveClass name = name := by simp [resolveClass, hfree]
    exact ⟨by rw [hself s, hself], .inr ⟨hself s, rfl⟩⟩
  | false =>
    have hhead := head?_resolveClass (s := s) hfree
    exact ⟨resolveClass_eq_self_iff.2 (.inr hhead), .inl hhead⟩

theorem staysResolved_resolveFunction (s : Scope) (name : String) :
    StaysResolved resolveFunction s name
      ('\\' ∉ name.toList ∧ s.space.isSome ∧ s.imported? .function name = none) := by
  have hresult : (s.resolveFunction name).toList.head? = some '\\' ∨ s.resolveFunction name = name ∧
      '\\' ∉ name.toList ∧ s.space.isSome ∧ s.imported? .function name = none :=
    head?_of_fallback s .function name
  refine ⟨?_, hresult⟩
  apply fallback_withoutImports
  rcases hresult with hhead | ⟨hself, hplain, hspace, -⟩
  · exact .inl hhead
  · exact .inr ⟨by rwa [hself], hspace⟩

theorem resolveConstant_of_mem (h : '\\' ∈ name.toList) :
    s.resolveConstant name = (s.resolve? .constant name).getD (s.fallback name) := by
  rw [resolveConstant, isLiteral_of_mem h, isMagicConstant_of_mem h]
  rfl

theorem staysResolved_resolveConstant (s : Scope) (name : String) :
    StaysResolved resolveConstant s name
      (isLiteral name ∨ isMagicConstant name ∨
        '\\' ∉ name.toList ∧ s.space.isSome ∧ s.imported? .constant name = none) := by
  by_cases hword : isLiteral name || isMagicConstant name
  · have hself : ∀ t : Scope, t.resolveConstant name = name := by simp [resolveConstant, hword]
    rw [Bool.or_eq_true] at hword
    exact ⟨by rw [hself s, hself], .inr ⟨hself s, hword.imp_right .inl⟩⟩
  have hfallback : ∀ t : Scope, t.resolveConstant name =
      (t.resolve? .constant name).getD (t.fallback name) := by simp [resolveConstant, hword]
  rcases head?_of_fallback s .constant name with hhead | ⟨hself, hplain, hspace, hfree⟩
  · rw [← hfallback] at hhead
    refine ⟨?_, .inl hhead⟩
    rw [resolveConstant_of_mem (List.mem_of_head? hhead)]
    exact fallback_withoutImports .constant (.inl hhead)
  · rw [← hfallback] at hself
    refine ⟨?_, .inr ⟨hself, .inr (.inr ⟨hplain, hspace, hfree⟩)⟩⟩
    rw [hself, hfallback]
    exact fallback_withoutImports .constant (.inr ⟨hplain, hspace⟩)

/-- Whatever happened to a scope, what it resolves a name to needs its imports no more: a fully
qualified name, a class name or constant that the language keeps for itself, or a function or
constant that is not imported in its namespace and falls back to the global one. -/
theorem staysResolved_reached (changes : List Change) (name : String) :
    let s := reached changes
    let waits (kind : ImportKind) := '\\' ∉ name.toList ∧ s.space.isSome ∧
      ∀ i ∈ sectionImports changes, ¬i.Covers kind name
    StaysResolved resolveClass s name (IsAmong specialNames name ∨ IsAmong builtinTypes name) ∧
      StaysResolved resolveFunction s name (waits .function) ∧
      StaysResolved resolveConstant s name
        (IsAmong literalConstants name ∨ IsMagic name ∨ waits .constant) := by
  intro s waits
  have hwaits (kind : ImportKind) : waits kind ↔
      '\\' ∉ name.toList ∧ s.space.isSome ∧ s.imported? kind name = none := by
    simp only [waits, s, imported?_reached_eq_none_iff]
  rw [hwaits, hwaits, ← isReservedClass_iff, ← isLiteral_iff, ← isMagicConstant_iff]
  exact ⟨staysResolved_resolveClass s name, staysResolved_resolveFunction s name,
    staysResolved_resolveConstant s name⟩

/-- A namespace with imports of a class and a function, behind one whose imports are gone. -/
def appChanges : List Change :=
  [.start (some "Old"), .add ⟨.classLike, "Old\\Base", none⟩, .start (some "App"),
    .add ⟨.classLike, "\\Lib\\Base", some "B"⟩, .add ⟨.function, "Lib\\f", none⟩]

/-- Each kind of name there, of which the last four stay as they are for a reason each. -/
theorem staysResolved_appChanges :
    let s := reached appChanges
    (s.resolveClass "b\\C" = "\\Lib\\Base\\C" ∧
        s.withoutImports.resolveClass "\\Lib\\Base\\C" = "\\Lib\\Base\\C") ∧
      (s.resolveClass "Base" = "\\App\\Base" ∧
        s.withoutImports.resolveClass "\\App\\Base" = "\\App\\Base") ∧
      (s.resolveFunction "F" = "\\Lib\\f" ∧
        s.withoutImports.resolveFunction "\\Lib\\f" = "\\Lib\\f") ∧
      (s.resolveClass "Self" = "Self" ∧
        (IsAmong specialNames "Self" ∨ IsAmong builtinTypes "Self")) ∧
      (s.resolveFunction "g" = "g" ∧ '\\' ∉ "g".toList ∧ s.space.isSome ∧
        ∀ i ∈ sectionImports appChanges, ¬i.Covers .function "g") ∧
      (s.resolveConstant "True" = "True" ∧ IsAmong literalConstants "True") ∧
      s.resolveConstant "__LINE__" = "__LINE__" ∧ IsMagic "__LINE__" := by
  intro s
  have hself := (staysResolved_reached appChanges "Self").1.2.resolve_left (by decide)
  have hwaits := (staysResolved_reached appChanges "g").2.1.2.resolve_left (by decide)
  have hliteral := (staysResolved_reached appChanges "True").2.2.2.resolve_left (by decide)
  have hmagic := (staysResolved_reached appChanges "__LINE__").2.2.2.resolve_left (by decide)
  refine ⟨⟨by decide, ?_⟩, ⟨by decide, ?_⟩, ⟨by decide, ?_⟩, hself, hwaits, ⟨hliteral.1, ?_⟩,
    hmagic.1, ?_⟩
  · exact (staysResolved_reached appChanges "b\\C").1.1
  · exact (staysResolved_reached appChanges "Base").1.1
  · exact (staysResolved_reached appChanges "F").2.1.1
  · exact ⟨"true", by decide, by decide⟩
  · exact ⟨"LINE", by decide, by decide, by decide⟩

end Scope

end Stubsmith
