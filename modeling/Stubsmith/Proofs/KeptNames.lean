import Stubsmith.Proofs.Layers
import Stubsmith.Proofs.Resolution

namespace Stubsmith.Syntax

/-- Whether a name in a layer is the label of an argument, a member or a variable. -/
def isMember (l : Layer) (n : Tree) : Bool :=
  ((l.root.kind == "argument" || isMemberKind l.root.kind) && hasField "name" n) ||
    (isScopeKind l.root.kind && l.before.any (·.kind == "::")) || l.root.kind == "variable_name"

/-- Whether a name in a layer is a method or its new name in a trait adaptation, or is declared by a
method or a constant. -/
def isDeclared (l : Layer) (n : Tree) : Bool :=
  l.root.kind == "use_as_clause" || (l.root.kind == "method_declaration" && hasField "name" n) ||
    (l.root.kind == "const_element" && !l.before.any (·.kind == "="))

section

variable {l : Layer} {n : Tree}

theorem reading?_isMember (hl : Shaped l.root (l.before ++ n :: l.after)) (hnamed : n.isNamed)
    (hn : n.kind = "name") (h : isMember l n) : l.reading? n = none := by
  obtain ⟨r, before, after⟩ := l
  have hcomment : n.kind ≠ "comment" := by
    rw [hn]
    decide
  simp only [isMember, Bool.or_eq_true, Bool.and_eq_true, beq_iff_eq] at h
  simp only [Layer.reading?]
  obtain (⟨hkind | hkind, hfield⟩ | ⟨hkind, hcolons⟩) | hkind := h
  · have hlabel := isFirst_hasField (hl.label hkind).1 hfield
    rw [hkind]
    simp [reading?, isOpaqueKind, isScopeKind, isMemberKind, hlabel]
  · rw [reading?_member hkind (hl.member hkind) hnamed hcomment, if_pos hfield]
  · have hne : before.isEmpty = false := by
      cases before with
      | nil => simp at hcolons
      | cons => rfl
    rw [reading?_scope hkind (hl.scope hkind) hnamed, hne, hn]
    rfl
  · rw [hkind]
    rfl

theorem reading?_isDeclared (hnamed : n.isNamed) (h : isDeclared l n) :
    l.reading? n = some .constant := by
  simp only [isDeclared, Bool.or_eq_true, Bool.and_eq_true, beq_iff_eq] at h
  rw [Layer.reading?]
  obtain (hkind | ⟨hkind, -⟩) | ⟨hkind, -⟩ := h <;>
    simp [hkind, reading?, isOpaqueKind, isScopeKind, isMemberKind, hnamed]

theorem isNamePart_of_place (h : isMember l n ∨ isDeclared l n) : isNamePart l.root.kind = false := by
  simp only [isMember, isDeclared, Bool.or_eq_true, Bool.and_eq_true, beq_iff_eq] at h
  obtain ((⟨hkind | hkind, -⟩ | ⟨hkind, -⟩) | hkind) | (hkind | ⟨hkind, -⟩) | ⟨hkind, -⟩ := h
  · rw [hkind]
    rfl
  · obtain hkind | hkind | hkind | hkind := isMemberKind_iff.1 hkind <;> rw [hkind] <;> rfl
  · obtain hkind | hkind | hkind := isScopeKind_iff.1 hkind <;> rw [hkind] <;> rfl
  all_goals
    rw [hkind]
    rfl

end

/-- A name that stands for no class, function or constant stays, except that a declared one is
written as a constant would be where the fragment is looked into. -/
theorem render_unreferenced (source : String) (scope : Scope) (ls : List Layer) (l : Layer)
    (n : Tree) (h : WellFormed source (wrap ls (l.fill n))) (hn : n.kind = "name")
    (hplain : '\\' ∉ (n.text source).toList) (hplace : isMember l n ∨ isDeclared l n) :
    let t := wrap ls (l.fill n)
    let written :=
      if isMember l n || hidden ls (l.fill n) then n.text source
      else scope.resolveConstant (n.text source)
    render source scope t =
        renderBetween source scope t t.root.start n.root.start ++ written ++
          renderBetween source scope t n.root.stop t.root.stop ∧
      (written = n.text source ↔
        isMember l n ∨ hidden ls (l.fill n) ∨ Scope.isLiteral (n.text source) ∨
          Scope.isMagicConstant (n.text source) ∨
          (scope.space.isSome ∧ scope.imported? .constant (n.text source) = none)) := by
  intro t written
  have hkind : isNameKind n.kind := by
    rw [hn]
    rfl
  obtain ⟨hl, hnshaped⟩ := every_fill (every_wrap h.shaped)
  have hl : Shaped l.root (l.before ++ n :: l.after) := of_decide_eq_true hl
  have hnamed : n.isNamed := named_of_isNameKind hnshaped hkind
  have hreading : (if hidden ls (l.fill n) then none else l.reading? n).elim (n.text source)
      (resolveAs scope · (n.text source)) = written := by
    cases hmember : isMember l n with
    | true => simp [written, hmember, reading?_isMember hl hnamed hn hmember]
    | false =>
      have hdeclared : isDeclared l n := by simpa [hmember] using hplace
      rw [reading?_isDeclared hnamed hdeclared]
      cases hhidden : hidden ls (l.fill n) <;> simp [written, hmember, hhidden, resolveAs]
  refine ⟨?_, ?_⟩
  · rw [← hreading]
    exact render_name scope h (isNamePart_of_place hplace) hkind
  · cases hmember : isMember l n with
    | true => simp [written, hmember]
    | false =>
      cases hhidden : hidden ls (l.fill n) with
      | true => simp [written, hhidden]
      | false => simp [written, hmember, hhidden, Scope.resolveConstant_eq_self_iff hplain]

section

/-- The file `<?php class A { use T { foo as bar; } }`. -/
def adaptingClass : String :=
  "<?php class A \x7b use T \x7b foo as bar; \x7d \x7d"

/-- The braces of `{ foo as bar; }` around the clause. -/
def adaptationBlock : Layer where
  root := { kind := "use_list", start := 22, stop := 37 }
  before := [.node { kind := "\x7b", named := false, start := 22, stop := 23 } []]
  after := [.node { kind := ";", named := false, start := 34, stop := 35 } [],
    .node { kind := "\x7d", named := false, start := 36, stop := 37 } []]

/-- The clause `foo as bar` around the name of the method. -/
def adaptationClause : Layer where
  root := { kind := "use_as_clause", start := 24, stop := 34 }
  before := []
  after := [.node { kind := "as", named := false, start := 28, stop := 30 } [],
    .node { kind := "name", start := 31, stop := 34 } []]

def adaptedMethod : Tree :=
  .node { kind := "name", start := 24, stop := 27 } []

theorem adaptations_wellFormed :
    WellFormed adaptingClass (wrap [adaptationBlock] (adaptationClause.fill adaptedMethod)) :=
  ⟨by decide, by decide, by decide⟩

/-- In a namespace the method keeps its name. -/
theorem render_adaptedMethod :
    let t := wrap [adaptationBlock] (adaptationClause.fill adaptedMethod)
    let scope : Scope := { space := some "App" }
    WellFormed adaptingClass t ∧ adaptedMethod.kind = "name" ∧
      '\\' ∉ (adaptedMethod.text adaptingClass).toList ∧
      (isMember adaptationClause adaptedMethod ∨ isDeclared adaptationClause adaptedMethod) ∧
      render adaptingClass scope t =
        renderBetween adaptingClass scope t 22 24 ++ "foo" ++
          renderBetween adaptingClass scope t 27 37 := by
  intro t scope
  have hplain : '\\' ∉ (adaptedMethod.text adaptingClass).toList := by decide
  have hplace : isMember adaptationClause adaptedMethod ∨
      isDeclared adaptationClause adaptedMethod := .inr (by decide)
  obtain ⟨hrender, hkept⟩ := render_unreferenced adaptingClass scope [adaptationBlock]
    adaptationClause adaptedMethod adaptations_wellFormed rfl hplain hplace
  have htext : adaptedMethod.text adaptingClass = "foo" := by decide
  refine ⟨adaptations_wellFormed, rfl, hplain, hplace, ?_⟩
  rw [hkept.2 (by decide), htext] at hrender
  exact hrender

/-- In the global namespace it does not. -/
theorem render_adaptations :
    let t := wrap [adaptationBlock] (adaptationClause.fill adaptedMethod)
    WellFormed adaptingClass t ∧ adaptedMethod.kind = "name" ∧
      isDeclared adaptationClause adaptedMethod ∧ adaptedMethod.text adaptingClass = "foo" ∧
      t.text adaptingClass = "\x7b foo as bar; \x7d" ∧
      render adaptingClass {} t = "\x7b \\foo as \\bar; \x7d" ∧
      render adaptingClass {} t ≠
        renderBetween adaptingClass {} t 22 24 ++ "foo" ++
          renderBetween adaptingClass {} t 27 37 := by
  intro t
  have hsorted : sortedReferences adaptingClass {} t = references adaptingClass {} .constant t :=
    sortedReferences_eq adaptations_wellFormed.ranged
  refine ⟨adaptations_wellFormed, rfl, by decide, by decide, by decide, ?_, ?_⟩
  · rw [render, hsorted]
    decide
  · rw [render, renderBetween, renderBetween, hsorted]
    decide

end

end Stubsmith.Syntax
