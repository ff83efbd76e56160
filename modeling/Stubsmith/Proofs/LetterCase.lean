import Stubsmith.Proofs.StableNames

namespace Stubsmith

namespace Text

theorem lowercase_eq_lowercase_iff {a b : String} :
    lowercase a = lowercase b ↔ a.toList.map Char.toLower = b.toList.map Char.toLower := by
  rw [lowercase_eq_iff, lowercase, String.toList_ofList]

theorem lowercase_append (a b : String) : lowercase (a ++ b) = lowercase a ++ lowercase b := by
  simp [lowercase]

theorem head?_lowercase {s : String} :
    (lowercase s).toList.head? = some '\\' ↔ s.toList.head? = some '\\' := by
  rw [lowercase, String.toList_ofList, List.head?_map, Option.map_eq_some_iff]
  constructor
  · rintro ⟨c, hc, h⟩
    rwa [← toLower_eq_backslash h]
  · intro h
    exact ⟨'\\', h, by decide⟩

/-- In small letters the first backslash stands where it was. -/
theorem splitAtFirst?_map_toLower (cs : List Char) :
    splitAtFirst? '\\' (cs.map Char.toLower) =
      (splitAtFirst? '\\' cs).map (Prod.map (List.map Char.toLower) (List.map Char.toLower)) := by
  induction cs with
  | nil => rfl
  | cons c cs ih =>
    have hc : c.toLower = '\\' ↔ c = '\\' := by
      refine ⟨toLower_eq_backslash, ?_⟩
      rintro rfl
      decide
    rw [List.map_cons, splitAtFirst?, splitAtFirst?, ih]
    simp only [hc]
    by_cases h : c = '\\'
    · rw [if_pos h, if_pos h]
      rfl
    · rw [if_neg h, if_neg h, Option.map_map, Option.map_map]
      rfl

theorem none_or_some_of_map_eq {α β : Type} {f : α → β} {x y : Option α} (h : x.map f = y.map f) :
    x = none ∧ y = none ∨ ∃ a b, x = some a ∧ y = some b ∧ f a = f b := by
  cases x <;> cases y <;> simp_all

theorem splitAtFirst?_of_lowercase {a b : String} (h : lowercase a = lowercase b) :
    splitAtFirst? '\\' a.toList = none ∧ splitAtFirst? '\\' b.toList = none ∨
      ∃ s t : List Char × List Char, splitAtFirst? '\\' a.toList = some s ∧
        splitAtFirst? '\\' b.toList = some t ∧
        s.map (List.map Char.toLower) (List.map Char.toLower) =
          t.map (List.map Char.toLower) (List.map Char.toLower) := by
  apply none_or_some_of_map_eq
  rw [← splitAtFirst?_map_toLower, ← splitAtFirst?_map_toLower, lowercase_eq_lowercase_iff.1 h]

end Text

namespace Scope

open Syntax Text

/-- Two changes that are the same but for the case of the alias that is written for a class or a
function. -/
inductive Change.Recased : Change → Change → Prop where
  | same (c : Change) : Recased c c
  | written {kind : ImportKind} (target : String) {a b : String} (folds : kind ≠ .constant)
      (eq : lowercase a = lowercase b) :
      Recased (.add ⟨kind, target, some a⟩) (.add ⟨kind, target, some b⟩)

theorem key_eq_of_lowercase {kind : ImportKind} (hkind : kind ≠ .constant) {a b : String}
    (h : lowercase a = lowercase b) : kind.key a = kind.key b := by
  cases kind with
  | constant => exact absurd rfl hkind
  | _ => exact congrArg (Prod.mk _) h

section

variable {s : Scope} {kind : ImportKind} {a b : String} (h : lowercase a = lowercase b)

include h

theorem imported?_of_lowercase (hkind : kind ≠ .constant) :
    s.imported? kind a = s.imported? kind b := by
  rw [imported?, imported?, key_eq_of_lowercase hkind h]

theorem isReservedClass_of_lowercase : isReservedClass a = isReservedClass b := by
  rw [isReservedClass, isReservedClass, h]

theorem relative?_of_lowercase : (relative? a).map lowercase = (relative? b).map lowercase := by
  have hchars := lowercase_eq_lowercase_iff.1 h
  rw [relative?, relative?, List.map_take, List.map_take, hchars]
  split
  · simp only [Option.map_some, lowercase, String.toList_ofList, List.map_drop, hchars]
  · rfl

theorem lowercase_within : lowercase (s.within a) = lowercase (s.within b) := by
  cases hspace : s.space <;> simp [within, hspace, lowercase_append, h]

theorem lowercase_fallback : lowercase (s.fallback a) = lowercase (s.fallback b) := by
  cases hspace : s.space <;> simp [fallback, hspace, lowercase_append, h]

/-- Each rule of resolution takes both names alike. -/
theorem resolve?_of_lowercase (hkind : kind ≠ .constant) :
    (s.resolve? kind a).map lowercase = (s.resolve? kind b).map lowercase := by
  have hheads : a.toList.head? = some '\\' ↔ b.toList.head? = some '\\' := by
    rw [← head?_lowercase, h, head?_lowercase]
  by_cases hhead : a.toList.head? = some '\\'
  · rw [resolve?_of_head kind hhead, resolve?_of_head kind (hheads.1 hhead)]
    exact congrArg some h
  rw [resolve?, resolve?, if_neg hhead, if_neg (mt hheads.2 hhead)]
  obtain ⟨ha, hb⟩ | ⟨rest, rest', ha, hb, hrest⟩ := none_or_some_of_map_eq (relative?_of_lowercase h)
  · rw [ha, hb]
    obtain ⟨ha, hb⟩ | ⟨⟨first, rest⟩, ⟨first', rest'⟩, ha, hb, hsplit⟩ := splitAtFirst?_of_lowercase h
    · rw [ha, hb]
      simp only [imported?_of_lowercase h hkind]
    · obtain ⟨hfirst, hrest⟩ := Prod.mk.inj hsplit
      have himported : s.imported? .classLike (String.ofList first) =
          s.imported? .classLike (String.ofList first') :=
        imported?_of_lowercase (by simp [lowercase, hfirst]) (by decide)
      rw [ha, hb]
      simp only [himported]
      cases s.imported? .classLike (String.ofList first') with
      | some target => simp [lowercase, hrest]
      | none => exact congrArg some (lowercase_within h)
  · rw [ha, hb]
    exact congrArg some (lowercase_within hrest)

theorem lowercase_resolveClass : lowercase (s.resolveClass a) = lowercase (s.resolveClass b) := by
  rw [resolveClass, resolveClass, isReservedClass_of_lowercase h]
  split
  · exact h
  · have hresolve : (s.resolve? .classLike a).map lowercase =
        (s.resolve? .classLike b).map lowercase := resolve?_of_lowercase h (by decide)
    obtain ⟨ha, hb⟩ | ⟨r, r', ha, hb, hresult⟩ := none_or_some_of_map_eq hresolve
    · rw [ha, hb]
      exact lowercase_within h
    · rw [ha, hb]
      exact hresult

theorem lowercase_resolveFunction :
    lowercase (s.resolveFunction a) = lowercase (s.resolveFunction b) := by
  rw [resolveFunction, resolveFunction]
  have hresolve : (s.resolve? .function a).map lowercase =
      (s.resolve? .function b).map lowercase := resolve?_of_lowercase h (by decide)
  obtain ⟨ha, hb⟩ | ⟨r, r', ha, hb, hresult⟩ := none_or_some_of_map_eq hresolve
  · rw [ha, hb]
    exact lowercase_fallback h
  · rw [ha, hb]
    exact hresult

end

theorem Change.Recased.applyTo {c d : Change} (h : c.Recased d) (s : Scope) :
    d.applyTo s = c.applyTo s := by
  cases h with
  | same => rfl
  | @written kind target a b folds eq =>
    have hkey : kind.key a = kind.key b := key_eq_of_lowercase folds eq
    rw [Change.applyTo, Change.applyTo, Import.addTo, Import.addTo, Scope.add, Scope.add,
      Option.getD_some, Option.getD_some, hkey]

theorem reached_recased {changes changes' : List Change}
    (h : List.Forall₂ Change.Recased changes changes') : reached changes' = reached changes := by
  have hfold (s : Scope) : changes'.foldl (fun s c => c.applyTo s) s =
      changes.foldl (fun s c => c.applyTo s) s := by
    induction h generalizing s with
    | nil => rfl
    | cons hc _ ih => rw [List.foldl_cons, List.foldl_cons, hc.applyTo, ih]
  exact hfold {}

/-- In a scope that was reached in any way, class and function names that differ in case only
resolve to names that differ in case only. In what case the aliases of classes and functions were
written makes no difference to what any name resolves to. -/
theorem resolve_recased (changes : List Change) :
    let s := reached changes
    (∀ a b, lowercase a = lowercase b →
      lowercase (s.resolveClass a) = lowercase (s.resolveClass b) ∧
        lowercase (s.resolveFunction a) = lowercase (s.resolveFunction b)) ∧
      ∀ changes', List.Forall₂ Change.Recased changes changes' →
        ∀ name, (reached changes').resolveClass name = s.resolveClass name ∧
          (reached changes').resolveFunction name = s.resolveFunction name := by
  intro s
  refine ⟨fun a b h => ⟨lowercase_resolveClass h, lowercase_resolveFunction h⟩, ?_⟩
  intro changes' h name
  rw [reached_recased h]
  exact ⟨rfl, rfl⟩

/-- The imports of a class and of a function under aliases that have capitals. -/
def capitalAliases : List Change :=
  [.start (some "App"), .add ⟨.classLike, "Lib\\Base", some "Base"⟩,
    .add ⟨.function, "Lib\\call", some "Call"⟩]

theorem resolve_capitalAliases :
    let changes := [.start (some "App"), .add ⟨.classLike, "Lib\\Base", some "bASE"⟩,
      .add ⟨.function, "Lib\\call", some "cALL"⟩]
    lowercase "Base\\Model" = lowercase "BASE\\model" ∧
      List.Forall₂ Change.Recased capitalAliases changes ∧
      (reached capitalAliases).resolveClass "Base\\Model" = "\\Lib\\Base\\Model" ∧
      lowercase ((reached capitalAliases).resolveClass "BASE\\model") = "\\lib\\base\\model" ∧
      (reached changes).resolveFunction "call" = "\\Lib\\call" := by
  intro changes
  have hnames : lowercase "Base\\Model" = lowercase "BASE\\model" := by decide
  have hchanges : List.Forall₂ Change.Recased capitalAliases changes :=
    .cons (.same _) (.cons (.written _ (by decide) (by decide))
      (.cons (.written _ (by decide) (by decide)) .nil))
  obtain ⟨hcase, haliases⟩ := resolve_recased capitalAliases
  obtain ⟨hclass, -⟩ := hcase _ _ hnames
  obtain ⟨-, hfunction⟩ := haliases changes hchanges "call"
  have hbase : (reached capitalAliases).resolveClass "Base\\Model" = "\\Lib\\Base\\Model" := by decide
  have hcall : (reached capitalAliases).resolveFunction "call" = "\\Lib\\call" := by decide
  refine ⟨hnames, hchanges, hbase, ?_, hfunction.trans hcall⟩
  rw [← hclass, hbase]
  decide

end Scope

end Stubsmith
