import Stubsmith.Proofs.Shape
import Stubsmith.Syntax.Program

namespace Stubsmith.Syntax

open Decl

variable {source : String} {scope : Scope}

theorem fitsAll_bodyOf (source : String) (body : Tree) : fitsAll .statement (bodyOf source body) := by
  apply fitsAll_iff.2
  intro d hd
  obtain ⟨c, -, rfl⟩ := List.mem_map.1 hd
  rfl

theorem fits_functionOf (p : Placed) : (functionOf source scope p).fits .statement := by
  have hbody : fitsAll .statement (((p.tree.child? "body").map (bodyOf source)).getD []) := by
    cases p.tree.child? "body" with
    | none => rfl
    | some body => exact fitsAll_bodyOf source body
  simpa [functionOf, fits] using hbody

theorem fits_methodOf (p : Placed) : (methodOf source scope p).fits .member := by
  unfold methodOf
  cases p.tree.child? "body" with
  | none => rfl
  | some body =>
    have hbody := fitsAll_bodyOf source body
    simpa [fits] using hbody

theorem fits_memberOf {p : Placed} {d : Decl} (h : memberOf? source scope p = some d) :
    d.fits .member := by
  unfold memberOf? at h
  split at h
  · cases h
  · cases h
    exact fits_methodOf p
  all_goals
    cases h
    rfl

theorem fits_classLikeOf (kind : ClassKind) (p : Placed) :
    (classLikeOf source scope kind p).fits .statement := by
  simp only [classLikeOf, fits, Bool.and_eq_true]
  refine ⟨rfl, ?_⟩
  split
  · apply fitsAll_iff.2
    intro d hd
    obtain ⟨m, -, hm⟩ := List.mem_filterMap.1 hd
    exact fits_memberOf hm
  · rfl

theorem fits_expressionStatementOf (p : Placed) :
    (expressionStatementOf source scope p).fits .statement := by
  unfold expressionStatementOf
  split
  · split
    · split <;> rfl
    · split <;> rfl
  · rfl

theorem fits_simpleStatement (p : Placed) : (simpleStatement source scope p).fits .statement := by
  unfold simpleStatement
  split
  · exact fits_functionOf p
  · exact fits_classLikeOf .classType p
  · exact fits_classLikeOf .interfaceType p
  · exact fits_classLikeOf .traitType p
  · exact fits_classLikeOf .enumType p
  · rfl
  · exact fits_expressionStatementOf p
  · rfl

mutual

theorem fits_statement (scope : Scope) (before : List Tree) :
    ∀ t, ∀ d ∈ (statement source scope before t).1, d.fits .statement
  | .node r cs => by
    intro d hd
    rw [statement] at hd
    split at hd
    · cases hd
    split at hd
    · cases hd
    split at hd
    · obtain rfl := Option.mem_some_iff.1 hd
      have hbody := fits_guardedBody scope [] cs
      simpa [fits] using hbody
    · obtain rfl := Option.mem_some_iff.1 hd
      exact fits_simpleStatement _

theorem fits_statements (scope : Scope) (before : List Tree) :
    ∀ ts, fitsAll .statement (statements source scope before ts).1
  | [] => by simp [statements, fitsAll]
  | t :: ts => by
    rw [statements]
    split
    · have hd := fits_statement scope before t
      have hds := fits_statements (statement source scope before t).2 (t :: before) ts
      simp only [fitsAll_append, Bool.and_eq_true]
      exact ⟨fitsAll_iff.2 fun d h => hd d (Option.mem_toList.1 h), hds⟩
    · exact fits_statements scope (t :: before) ts

theorem fits_guardedBody (scope : Scope) (before : List Tree) :
    ∀ ts, fitsAll .statement (guardedBody source scope before ts).1
  | [] => by simp [guardedBody, fitsAll]
  | .node r cs :: ts => by
    rw [guardedBody]
    split
    · split
      · exact fits_statements scope [] cs
      · have hd := fits_statement scope before (.node r cs)
        exact fitsAll_iff.2 fun d h => hd d (Option.mem_toList.1 h)
    · exact fits_guardedBody scope (.node r cs :: before) ts

end

theorem fits_close {s : Option OpenSpace} (hs : ∀ o ∈ s, fitsAll .statement o.body) :
    fitsAll .file (OpenSpace.close s) := by
  cases s with
  | none => rfl
  | some o =>
    have hbody := hs o rfl
    simpa [OpenSpace.close, fitsAll, fits] using hbody

theorem fits_topLevel (current : Option OpenSpace) (ps : List Placed)
    (hcurrent : ∀ o ∈ current, fitsAll .statement o.body) :
    fitsAll .file (topLevel source scope current ps) := by
  induction ps generalizing scope current with
  | nil => exact fits_close hcurrent
  | cons p ps ih =>
    have hd : ∀ d ∈ (statement source scope p.before p.tree).1, d.fits .statement :=
      fits_statement scope p.before p.tree
    unfold topLevel
    split
    · split
      · next body _ =>
        simp only [fitsAll_append, fitsAll, fits, Bool.and_eq_true]
        exact ⟨fits_close hcurrent, ⟨rfl, fits_statements _ [] _⟩, ih none (by simp)⟩
      · simp only [fitsAll_append, Bool.and_eq_true]
        refine ⟨fits_close hcurrent, ih _ ?_⟩
        intro o ho
        obtain rfl := Option.mem_some_iff.1 ho
        rfl
    · split
      · exact ih _ hcurrent
      · next d _ hstatement =>
        rw [hstatement] at hd
        simp only [fitsAll, Bool.and_eq_true]
        exact ⟨fits_file_iff.2 (.inr (hd d rfl)), ih none (by simp)⟩
      · next d _ s hstatement =>
        rw [hstatement] at hd
        apply ih _
        intro o ho
        obtain rfl := Option.mem_some_iff.1 ho
        have hbody := hcurrent s rfl
        simp [fitsAll, hbody, hd d rfl]

/-- Namespaces stand at the top level of a file only, and members in class-likes only. -/
theorem fits_program (source : String) (t : Tree) : fitsAll .file (program source t) :=
  fits_topLevel none _ (by simp)

end Stubsmith.Syntax
