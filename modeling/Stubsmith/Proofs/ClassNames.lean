import Stubsmith.Proofs.Layers
import Stubsmith.Proofs.Resolution

namespace Stubsmith.Syntax

/-- Whether a name in a layer is that of a class: in a type, before two colons, of a new object or
on the right of `instanceof`. -/
def isClassName (l : Layer) (n : Tree) : Bool :=
  l.root.kind == "named_type" || (isScopeKind l.root.kind && l.before.isEmpty) ||
    l.root.kind == "object_creation_expression" ||
    (l.root.kind == "binary_expression" && hasField "right" n &&
      (l.before.find? (hasField "operator")).any (·.kind == "instanceof"))

section

variable {l : Layer} {n : Tree}

theorem reading?_isClassName (hl : Shaped l.root (l.before ++ n :: l.after)) (hnamed : n.isNamed)
    (hn : isNameKind n.kind) (h : isClassName l n) : l.reading? n = some .classLike := by
  obtain ⟨r, before, after⟩ := l
  have hcomment : n.kind ≠ "comment" := by
    intro hcomment
    rw [hcomment] at hn
    exact absurd hn (by decide)
  simp only [isClassName, Bool.or_eq_true, Bool.and_eq_true, beq_iff_eq] at h
  simp only [Layer.reading?]
  obtain ((hkind | ⟨hkind, hempty⟩) | hkind) | ⟨⟨hkind, hright⟩, hoperator⟩ := h
  · have hfirst : isFirst Tree.isNamed (before ++ n :: after) before.length := by
      refine isFirst_iff.2 ⟨hnamed, fun b hb hbnamed => ?_⟩
      have hpos : 0 < (before.filter Tree.isNamed).length :=
        List.length_pos_of_mem (List.mem_filter.2 ⟨hb, hbnamed⟩)
      have hle := (hl.type hkind).1
      simp only [List.filter_append, List.filter_cons, hnamed, if_true, List.length_append,
        List.length_cons] at hle
      omega
    rw [hkind]
    simp [reading?, isOpaqueKind, hfirst, hn]
  · rw [reading?_scope hkind (hl.scope hkind) hnamed, if_pos hempty]
  · rw [hkind]
    simp [reading?, isOpaqueKind, isScopeKind, hnamed]
  · obtain ⟨op, hop, hinstanceof⟩ := (Option.any_eq_true ..).1 hoperator
    have hfound : (before ++ n :: after).find? (hasField "operator") = some op := by
      rw [List.find?_append, hop, Option.some_or]
    rw [hkind, reading?_binary (hl.binary hkind) hnamed hcomment, hfound, hright]
    simpa using hinstanceof

theorem isNamePart_of_isClassName (h : isClassName l n) : isNamePart l.root.kind = false := by
  simp only [isClassName, Bool.or_eq_true, Bool.and_eq_true, beq_iff_eq] at h
  obtain ((hkind | ⟨hkind, -⟩) | hkind) | ⟨⟨hkind, -⟩, -⟩ := h
  · rw [hkind]
    rfl
  · obtain hkind | hkind | hkind := isScopeKind_iff.1 hkind <;> rw [hkind] <;> rfl
  all_goals
    rw [hkind]
    rfl

end

/-- The name of a class is rendered to what it resolves to, unless something around it is written as
it stands. There it depends on the imports unless it is fully qualified or reserved. -/
theorem render_className (source : String) (scope : Scope) (ls : List Layer) (l : Layer) (n : Tree)
    (h : WellFormed source (wrap ls (l.fill n))) (hn : isNameKind n.kind) (hplace : isClassName l n) :
    let t := wrap ls (l.fill n)
    let written :=
      if hidden ls (l.fill n) then n.text source else scope.resolveClass (n.text source)
    render source scope t =
        renderBetween source scope t t.root.start n.root.start ++ written ++
          renderBetween source scope t n.root.stop t.root.stop ∧
      (written = scope.resolveClass (n.text source) ↔
        hidden ls (l.fill n) = false ∨ Scope.isReservedClass (n.text source) ∨
          (n.text source).toList.head? = some '\\') := by
  intro t written
  obtain ⟨hl, hnshaped⟩ := every_fill (every_wrap h.shaped)
  have hl : Shaped l.root (l.before ++ n :: l.after) := of_decide_eq_true hl
  have hread := reading?_isClassName hl (named_of_isNameKind hnshaped hn) hn hplace
  have hrender := render_name scope h (isNamePart_of_isClassName hplace) hn
  have hwritten : (if hidden ls (l.fill n) then none else l.reading? n).elim (n.text source)
      (resolveAs scope · (n.text source)) = written := by
    rw [hread]
    cases hhidden : hidden ls (l.fill n) <;> simp [written, hhidden, resolveAs]
  refine ⟨?_, ?_⟩
  · rw [← hwritten]
    exact hrender
  · cases hhidden : hidden ls (l.fill n) with
    | true =>
      simp only [written, hhidden, if_true, Bool.true_eq_false, false_or]
      exact eq_comm.trans Scope.resolveClass_eq_self_iff
    | false => simp [written, hhidden]

section

/-- The file `<?php use Lib\Foo; $v = $x->{Foo::BAR};`. -/
def computedMember : String :=
  "<?php use Lib\\Foo; $v = $x->\x7bFoo::BAR\x7d;"

/-- The import of the file in scope. -/
def libScope : Scope :=
  Scope.add {} .classLike "Lib\\Foo" none

/-- The member access `$x->{Foo::BAR}` around what computes the name of the member. -/
def memberAccess : Layer where
  root := { kind := "member_access_expression", field := some "right", start := 24, stop := 38 }
  before := [.node { kind := "variable_name", field := some "object", start := 24, stop := 26 }
      [.node { kind := "$", named := false, start := 24, stop := 25 } [],
        .node { kind := "name", start := 25, stop := 26 } []],
    .node { kind := "->", named := false, start := 26, stop := 28 } [],
    .node { kind := "\x7b", named := false, start := 28, stop := 29 } []]
  after := [.node { kind := "\x7d", named := false, start := 37, stop := 38 } []]

/-- The constant `Foo::BAR` around its class, in a role that it has in the expression around it. -/
def constantAccess (field : Option String) : Layer where
  root := { kind := "class_constant_access_expression", field, start := 29, stop := 37 }
  before := []
  after := [.node { kind := "::", named := false, start := 32, stop := 34 } [],
    .node { kind := "name", start := 34, stop := 37 } []]

def constantClass : Tree :=
  .node { kind := "name", start := 29, stop := 32 } []

/-- The class of a constant by itself comes to the imported one. -/
theorem render_constantClass :
    let t := (constantAccess none).fill constantClass
    WellFormed computedMember t ∧ isNameKind constantClass.kind ∧
      isClassName (constantAccess none) constantClass ∧
      render computedMember libScope t =
        renderBetween computedMember libScope t 29 29 ++ "\\Lib\\Foo" ++
          renderBetween computedMember libScope t 32 37 := by
  intro t
  have hwf : WellFormed computedMember t := ⟨by decide, by decide, by decide⟩
  have hplace : isClassName (constantAccess none) constantClass := by decide
  obtain ⟨hrender, -⟩ := render_className computedMember libScope [] (constantAccess none)
    constantClass hwf rfl hplace
  have hresolved : libScope.resolveClass (constantClass.text computedMember) = "\\Lib\\Foo" := by
    decide
  refine ⟨hwf, rfl, hplace, ?_⟩
  rw [hidden, hresolved] at hrender
  exact hrender

/-- Where the constant computes the name of a member, its class stays. -/
theorem render_computedMember :
    let t := wrap [memberAccess] ((constantAccess (some "name")).fill constantClass)
    WellFormed computedMember t ∧ isNameKind constantClass.kind ∧
      isClassName (constantAccess (some "name")) constantClass ∧
      libScope.resolveClass (constantClass.text computedMember) = "\\Lib\\Foo" ∧
      render computedMember libScope t = "$x->\x7bFoo::BAR\x7d" ∧
      render computedMember libScope t ≠
        renderBetween computedMember libScope t 24 29 ++ "\\Lib\\Foo" ++
          renderBetween computedMember libScope t 32 38 := by
  intro t
  have hwf : WellFormed computedMember t := ⟨by decide, by decide, by decide⟩
  have hsorted : sortedReferences computedMember libScope t =
      references computedMember libScope .constant t := sortedReferences_eq hwf.ranged
  refine ⟨hwf, rfl, by decide, by decide, ?_, ?_⟩
  · rw [render, hsorted]
    decide
  · rw [render, renderBetween, renderBetween, hsorted]
    decide

end

end Stubsmith.Syntax
