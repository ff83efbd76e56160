import Mathlib.Data.List.Induction
import Stubsmith.Proofs.Imported

namespace Stubsmith

namespace Syntax

namespace Import

/-- What an import stands for, without backslashes before it. -/
def bare (i : Import) : String :=
  Text.dropLeading '\\' i.target

/-- The alias of an import, which is the last segment of its target if none is given. -/
def called (i : Import) : String :=
  i.aliasName.getD (Scope.lastSegment i.bare)

/-- Whether an import gives a class the alias `name`, whatever the case of the letters. -/
def Binds (i : Import) (name : String) : Prop :=
  i.kind = .classLike ∧ Text.lowercase i.called = Text.lowercase name

instance (i : Import) (name : String) : Decidable (i.Binds name) :=
  inferInstanceAs (Decidable (_ ∧ _))

/-- Whether a name in one of the tables is looked up as the alias of an import. -/
def Covers (i : Import) (kind : ImportKind) (name : String) : Prop :=
  i.kind = kind ∧ kind.key i.called = kind.key name

instance (i : Import) (kind : ImportKind) (name : String) : Decidable (i.Covers kind name) :=
  inferInstanceAs (Decidable (_ ∧ _))

theorem covers_classLike {i : Import} {name : String} : i.Covers .classLike name ↔ i.Binds name := by
  simp [Covers, Binds, ImportKind.key]

end Import

/-- The last of some imports under the alias `name` is one of the class `target`. -/
def InForce (imports : List Import) (name target : String) : Prop :=
  ∃ earlier i later, imports = earlier ++ i :: later ∧ i.Binds name ∧ i.bare = target ∧
    ∀ j ∈ later, ¬j.Binds name

end Syntax

namespace Text

theorem toLower_eq_backslash {c : Char} (h : c.toLower = '\\') : c = '\\' := by
  unfold Char.toLower at h
  split at h
  · next hc =>
    have hlow : 'A'.val.toNat ≤ c.val.toNat := UInt32.le_iff_toNat_le.1 hc.1
    have hhigh : c.val.toNat ≤ 'Z'.val.toNat := UInt32.le_iff_toNat_le.1 hc.2
    have hval := congrArg (fun d : Char => d.val.toNat) h
    simp at hlow hhigh hval
    omega
  · exact h

theorem lowercase_eq_iff {s word : String} :
    lowercase s = word ↔ s.toList.map Char.toLower = word.toList := by
  rw [lowercase, ← String.toList_inj, String.toList_ofList]

theorem mem_lowercase {s : String} : '\\' ∈ (lowercase s).toList ↔ '\\' ∈ s.toList := by
  simp only [lowercase, String.toList_ofList, List.mem_map]
  constructor
  · rintro ⟨c, hc, h⟩
    rwa [← toLower_eq_backslash h]
  · intro h
    exact ⟨'\\', h, by decide⟩

theorem splitAtFirst?_of_not_mem {c : Char} {cs : List Char} (h : c ∉ cs) :
    splitAtFirst? c cs = none := by
  induction cs with
  | nil => rfl
  | cons d cs ih =>
    simp only [List.mem_cons, not_or] at h
    rw [splitAtFirst?, if_neg (Ne.symm h.1), ih h.2]
    rfl

theorem splitAtFirst?_append {c : Char} {cs : List Char} (h : c ∉ cs) (rest : List Char) :
    splitAtFirst? c (cs ++ c :: rest) = some (cs, rest) := by
  induction cs with
  | nil => simp [splitAtFirst?]
  | cons d cs ih =>
    simp only [List.mem_cons, not_or] at h
    rw [List.cons_append, splitAtFirst?, if_neg (Ne.symm h.1), ih h.2]
    rfl

end Text

namespace Scope

open Syntax

variable {s : Scope} {imports : List Import} {name short target rest : String}

theorem imported?_addTo (i : Import) (s : Scope) (kind : ImportKind) (name : String) :
    (i.addTo s).imported? kind name =
      if i.Covers kind name then some i.bare else s.imported? kind name := by
  have hkey : kind.key name = i.kind.key i.called ↔ i.Covers kind name := by
    rw [Import.Covers]
    cases kind <;> cases hkind : i.kind <;> simp [ImportKind.key, eq_comm]
  have htargets : (i.addTo s).targets = (i.kind.key i.called, i.bare) :: s.targets := rfl
  rw [imported?, imported?, htargets, List.lookup_cons]
  by_cases h : i.Covers kind name
  · simp [hkey.2 h, h]
  · simp [beq_eq_false_iff_ne.2 (mt hkey.1 h), h]

/-- Of the imports made in a scope the last one under an alias counts, and else what was there. -/
theorem imported?_after (s : Scope) (imports : List Import) (kind : ImportKind) (name : String) :
    (s.after imports).imported? kind name =
      ((imports.reverse.find? (·.Covers kind name)).map Import.bare).or (s.imported? kind name) := by
  induction imports using List.reverseRecOn with
  | nil => rfl
  | append_singleton imports i ih =>
    rw [after_append, List.reverse_append, List.reverse_singleton, List.singleton_append,
      List.find?_cons]
    have hlast : (s.after imports).after [i] = i.addTo (s.after imports) := rfl
    rw [hlast, imported?_addTo, ih]
    by_cases h : i.Covers kind name <;> simp [h]

theorem imported?_start_after (given : Option String) (imports : List Import) (kind : ImportKind)
    (name : String) :
    ((start given).after imports).imported? kind name =
      (imports.reverse.find? (·.Covers kind name)).map Import.bare := by
  rw [imported?_after]
  exact Option.or_none

theorem imported?_eq_some_iff (given : Option String) :
    ((start given).after imports).imported? .classLike name = some target ↔
      InForce imports name target := by
  simp only [imported?_start_after, Import.covers_classLike, Option.map_eq_some_iff]
  constructor
  · rintro ⟨i, hi, rfl⟩
    obtain ⟨hbinds, later, earlier, heq, hfree⟩ := List.find?_eq_some_iff_append.1 hi
    refine ⟨earlier.reverse, i, later.reverse, ?_, by simpa using hbinds, rfl, ?_⟩
    · have := congrArg List.reverse heq
      simpa using this
    · intro j hj
      simpa using hfree j (by simpa using hj)
  · rintro ⟨earlier, i, later, rfl, hbinds, hbare, hfree⟩
    refine ⟨i, List.find?_eq_some_iff_append.2 ⟨by simpa using hbinds, later.reverse,
      earlier.reverse, by simp, ?_⟩, hbare⟩
    intro j hj
    simpa using hfree j (by simpa using hj)

theorem imported?_eq_none_iff_covers (given : Option String) {kind : ImportKind} :
    ((start given).after imports).imported? kind name = none ↔
      ∀ i ∈ imports, ¬i.Covers kind name := by
  simp [imported?_start_after]

theorem imported?_eq_none_iff (given : Option String) :
    ((start given).after imports).imported? .classLike name = none ↔
      ∀ i ∈ imports, ¬i.Binds name := by
  simp only [imported?_eq_none_iff_covers, Import.covers_classLike]

theorem isReservedClass_of_mem (h : '\\' ∈ name.toList) : isReservedClass name = false := by
  have hplain : ∀ word ∈ reservedClassNames, '\\' ∉ word.toList := by decide
  rw [isReservedClass, List.contains_eq_mem, decide_eq_false_iff_not]
  intro hmem
  exact hplain _ hmem (Text.mem_lowercase.2 h)

theorem relative?_of_not_mem (h : '\\' ∉ name.toList) : relative? name = none := by
  rw [relative?]
  apply if_neg
  intro htake
  have hmem : '\\' ∈ (name.toList.take "namespace\\".toList.length).map Char.toLower := by
    rw [htake]
    decide
  obtain ⟨c, hc, hlower⟩ := List.mem_map.1 hmem
  rw [Text.toLower_eq_backslash hlower] at hc
  exact h (List.mem_of_mem_take hc)

theorem relative?_append (hplain : '\\' ∉ short.toList) (rest : String) :
    relative? (short ++ "\\" ++ rest) =
      if Text.lowercase short = "namespace" then some rest else none := by
  have htoList : (short ++ "\\" ++ rest).toList = short.toList ++ '\\' :: rest.toList := by simp
  rw [relative?, htoList]
  by_cases h : Text.lowercase short = "namespace"
  · have hword := Text.lowercase_eq_iff.1 h
    have hlength : short.toList.length = 9 := by simpa using congrArg List.length hword
    have htake : (short.toList ++ '\\' :: rest.toList).take 10 = short.toList ++ ['\\'] := by
      rw [List.take_append, List.take_of_length_le (by omega), hlength]
      rfl
    have hdrop : (short.toList ++ '\\' :: rest.toList).drop 10 = rest.toList := by
      simp [List.drop_append, hlength]
    have hten : "namespace\\".toList.length = 10 := by decide
    simp only [hten, htake, hdrop, String.ofList_toList, List.map_append, hword, if_pos h]
    exact if_pos (by decide)
  · rw [if_neg h]
    apply if_neg
    intro htake
    -- the first backslash stands behind `short` in the name and behind the word in the keyword
    have hwhole := List.take_append_drop "namespace\\".toList.length
      ((short.toList ++ '\\' :: rest.toList).map Char.toLower)
    have hkeyword : "namespace\\".toList = "namespace".toList ++ ['\\'] := by decide
    rw [← List.map_take, htake, hkeyword, List.append_assoc, List.map_append, List.map_cons] at hwhole
    have hbackslash : Char.toLower '\\' = '\\' := by decide
    have hfirst : '\\' ∉ short.toList.map Char.toLower := by
      have := mt Text.mem_lowercase.1 hplain
      rwa [Text.lowercase, String.toList_ofList] at this
    have hsplit := congrArg (Text.splitAtFirst? '\\') hwhole
    rw [List.singleton_append, Text.splitAtFirst?_append (by decide), hbackslash,
      Text.splitAtFirst?_append hfirst] at hsplit
    exact h (Text.lowercase_eq_iff.2 (congrArg Prod.fst (Option.some.inj hsplit)).symm)

theorem resolve?_of_plain (kind : ImportKind) (hplain : '\\' ∉ name.toList) :
    s.resolve? kind name = (s.imported? kind name).map ("\\" ++ ·) := by
  have hhead : name.toList.head? ≠ some '\\' := fun h => hplain (List.mem_of_head? h)
  rw [resolve?, if_neg hhead, relative?_of_not_mem hplain, Text.splitAtFirst?_of_not_mem hplain]

theorem resolveClass_of_plain (hplain : '\\' ∉ name.toList) (hfree : isReservedClass name = false) :
    s.resolveClass name =
      match s.imported? .classLike name with
      | some target => "\\" ++ target
      | none => s.within name := by
  rw [resolveClass, hfree, resolve?_of_plain .classLike hplain]
  cases s.imported? .classLike name <;> rfl

/-- A name without backslashes stays in the place of a constant if it is no constant or waits for
the fallback to the global one. -/
theorem resolveConstant_eq_self_iff (hplain : '\\' ∉ name.toList) :
    s.resolveConstant name = name ↔
      isLiteral name ∨ isMagicConstant name ∨
        (s.space.isSome ∧ s.imported? .constant name = none) := by
  have hne : ∀ rest, "\\" ++ rest ≠ name := by
    rintro rest rfl
    exact hplain (by simp)
  rw [resolveConstant, resolve?_of_plain .constant hplain]
  cases hliteral : isLiteral name with
  | true => simp
  | false =>
    cases hmagic : isMagicConstant name with
    | true => simp
    | false =>
      cases himported : s.imported? .constant name with
      | some target => simp [hne target]
      | none => cases hspace : s.space <;> simp [fallback, hspace, hne name]

theorem head?_within (s : Scope) (name : String) : (s.within name).toList.head? = some '\\' := by
  cases hspace : s.space <;> simp [within, hspace]

theorem resolve?_of_head (kind : ImportKind) (h : name.toList.head? = some '\\') :
    s.resolve? kind name = some name := by
  rw [resolve?, if_pos h]

/-- What a name resolves to without a fallback is fully qualified. -/
theorem head?_of_resolve? {kind : ImportKind} {result : String}
    (h : s.resolve? kind name = some result) : result.toList.head? = some '\\' := by
  by_cases hhead : name.toList.head? = some '\\'
  · rw [resolve?_of_head kind hhead] at h
    rwa [← Option.some.inj h]
  rw [resolve?, if_neg hhead] at h
  cases hrelative : relative? name with
  | some rest =>
    simp only [hrelative, Option.some.injEq] at h
    rw [← h, head?_within]
  | none =>
    cases hsplit : Text.splitAtFirst? '\\' name.toList with
    | none =>
      simp only [hrelative, hsplit, Option.map_eq_some_iff] at h
      obtain ⟨target, -, rfl⟩ := h
      simp
    | some split =>
      cases himported : s.imported? .classLike (String.ofList split.1) with
      | some target =>
        simp only [hrelative, hsplit, himported, Option.some.injEq] at h
        simp [← h]
      | none =>
        simp only [hrelative, hsplit, himported, Option.some.injEq] at h
        rw [← h, head?_within]

theorem head?_resolveClass (hfree : isReservedClass name = false) :
    (s.resolveClass name).toList.head? = some '\\' := by
  rw [resolveClass, hfree, if_neg Bool.false_ne_true]
  cases h : s.resolve? .classLike name with
  | some result => exact head?_of_resolve? h
  | none => exact head?_within s name

/-- A name is left to the fallback if it has no backslash and is not imported. -/
theorem resolve?_eq_none_iff {kind : ImportKind} :
    s.resolve? kind name = none ↔ '\\' ∉ name.toList ∧ s.imported? kind name = none := by
  by_cases hmem : '\\' ∈ name.toList
  · obtain ⟨first, rest, hname, hfirst⟩ := List.eq_append_cons_of_mem hmem
    have hsome : (s.resolve? kind name).isSome := by
      rw [resolve?, hname, Text.splitAtFirst?_append hfirst]
      split
      · rfl
      · cases relative? name with
        | some rest => rfl
        | none => cases himported : s.imported? .classLike (String.ofList first) <;> simp [himported]
    simp [hmem, Option.isSome_iff_ne_none.1 hsome]
  · rw [resolve?_of_plain kind hmem]
    simp [hmem]

/-- Only a name that means a class by where it stands or a type, or that is fully qualified, stays
in the place of a class. -/
theorem resolveClass_eq_self_iff :
    s.resolveClass name = name ↔ isReservedClass name ∨ name.toList.head? = some '\\' := by
  cases hfree : isReservedClass name with
  | true => simp [resolveClass, hfree]
  | false =>
    constructor
    · intro h
      rw [← h]
      exact .inr (head?_resolveClass hfree)
    · rintro (h | h)
      · exact absurd h Bool.false_ne_true
      · simp [resolveClass, hfree, resolve?_of_head .classLike h]

theorem resolveClass_absolute (rest : String) : s.resolveClass ("\\" ++ rest) = "\\" ++ rest := by
  have hmem : '\\' ∈ ("\\" ++ rest).toList := by simp
  rw [resolveClass, isReservedClass_of_mem hmem, resolve?_of_head .classLike (by simp)]
  rfl

theorem resolveClass_append (hplain : '\\' ∉ short.toList) (hne : short ≠ "") (rest : String) :
    s.resolveClass (short ++ "\\" ++ rest) =
      if Text.lowercase short = "namespace" then s.within rest
      else
        match s.imported? .classLike short with
        | some target => "\\" ++ target ++ "\\" ++ rest
        | none => s.within (short ++ "\\" ++ rest) := by
  have hmem : '\\' ∈ (short ++ "\\" ++ rest).toList := by simp
  have hhead : (short ++ "\\" ++ rest).toList.head? ≠ some '\\' := by
    obtain ⟨c, cs, hcs⟩ := List.exists_cons_of_ne_nil (mt String.toList_eq_nil_iff.1 hne)
    rw [hcs, List.mem_cons, not_or] at hplain
    simpa [hcs] using Ne.symm hplain.1
  have hsplit : Text.splitAtFirst? '\\' (short ++ "\\" ++ rest).toList =
      some (short.toList, rest.toList) := by
    have := Text.splitAtFirst?_append hplain rest.toList
    simpa using this
  rw [resolveClass, isReservedClass_of_mem hmem, resolve?, if_neg hhead, relative?_append hplain,
    hsplit]
  by_cases hk : Text.lowercase short = "namespace"
  · rw [if_pos hk, if_pos hk]
    rfl
  · rw [if_neg hk, if_neg hk]
    simp only [String.ofList_toList]
    cases s.imported? .classLike short <;> rfl

end Scope

end Stubsmith
