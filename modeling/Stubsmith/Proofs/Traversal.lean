import Mathlib.Data.List.Forall2
import Stubsmith.Proofs.TreePlaces

namespace Stubsmith

open Decl

namespace Decl

/-- The declaration as it is left, where `left` is left of what is inside. -/
def leftWith (skips : Decl → Bool) (left : List Decl) (d : Decl) : Decl :=
  if skips d then d else d.withChildren left

end Decl

namespace Visitor

variable {σ : Type}

/-- What a visitor is told, and what it answers when a declaration is left. -/
inductive Call where
  | before
  | enter (d : Decl)
  | leave (d : Decl) (replacement : List Decl)
  | after

/-- The visitor with a record of what it was told. -/
def recorded (v : Visitor σ) : Visitor (σ × List Call) where
  before s := (v.before s.1, s.2 ++ [.before])
  enter d s :=
    let (answer, t) := v.enter d s.1
    (answer, t, s.2 ++ [.enter d])
  leave d s :=
    let (left, t) := v.leave d s.1
    (left, t, s.2 ++ [.leave d left])
  after s := (v.after s.1, s.2 ++ [.after])

/-- A visitor that on entering leaves every declaration as it is and skips those of which a
predicate holds. What it does on leaving is left open. -/
def SkipsBy (v : Visitor σ) (skips : Decl → Bool) : Prop :=
  ∀ d s, (v.enter d s).1 = (d, if skips d then .skip else .into)

/-- What a visitor is told at a step of a tour through `ds`, where `replacement` is what it answers
at each place. A declaration is left with the answers for those inside in their place. -/
inductive IsTold (skips : Decl → Bool) (ds : List Decl) (replacement : Place → List Decl) :
    Step → Call → Prop where
  | enter {p : Place} {d : Decl} (h : at? ds p = some d) :
    IsTold skips ds replacement ⟨.enter, p⟩ (.enter d)
  | leave {p : Place} {d : Decl} (h : at? ds p = some d) :
    IsTold skips ds replacement ⟨.leave, p⟩
      (.leave
        (d.leftWith skips ((List.range d.inside.length).flatMap fun i => replacement (p ++ [i])))
        (replacement p))

variable {v : Visitor σ} {skips : Decl → Bool} {d : Decl} {ds : List Decl} {s : σ}

theorem recorded_enter (log : List Call) :
    v.recorded.enter d (s, log) = ((v.enter d s).1, (v.enter d s).2, log ++ [.enter d]) :=
  rfl

theorem recorded_leave (log : List Call) :
    v.recorded.leave d (s, log) =
      ((v.leave d s).1, (v.leave d s).2, log ++ [.leave d (v.leave d s).1]) :=
  rfl

theorem skipsBy_recorded (hv : v.SkipsBy skips) : v.recorded.SkipsBy skips :=
  fun d s => hv d s.1

/-- A declaration is left after a walk over what the visitor enters inside. -/
theorem walk_of_skipsBy (hv : v.SkipsBy skips) (d : Decl) (s : σ) :
    v.walk d s = v.leave
      (d.leftWith skips (v.walkAll (d.insideUnless skips) (v.enter d s).2).1)
      (v.walkAll (d.insideUnless skips) (v.enter d s).2).2 := by
  have hanswer : v.enter d s = ((d, if skips d then .skip else .into), (v.enter d s).2) :=
    Prod.ext (hv d s) rfl
  rw [walk_eq_around, around, hanswer, insideUnless, leftWith]
  cases skips d with
  | true => rfl
  | false =>
    cases hbody : d.children? with
    | none => simp [inside, hbody, walkAll, withChildren_of_children?_eq_none hbody]
    | some body => simp [inside, hbody]

/-- The answers at all places of a list, from those for its first declaration, for what the visitor
enters inside and for the rest. -/
def answers (first : List Decl) (inner rest : Place → List Decl) : Place → List Decl
  | [] => []
  | [0] => first
  | 0 :: p => inner p
  | (i + 1) :: p => rest (i :: p)

section

variable {first : List Decl} {inner rest : Place → List Decl} {p : Place}

theorem answers_inside (hp : p ≠ []) : answers first inner rest (0 :: p) = inner p := by
  cases p with
  | nil => exact absurd rfl hp
  | cons i p => rfl

theorem answers_shifted (hp : p ≠ []) : answers first inner rest (Place.shifted p) = rest p := by
  cases p with
  | nil => exact absurd rfl hp
  | cons i p => rfl

theorem flatMap_answers (n : Nat) :
    ((List.range (n + 1)).flatMap fun i => answers first inner rest [i]) =
      first ++ (List.range n).flatMap fun i => rest [i] := by
  rw [List.range_succ_eq_map, List.flatMap_cons, List.flatMap_map]
  rfl

theorem IsTold.inside {step : Step} {call : Call}
    (h : IsTold skips (d.insideUnless skips) inner step call) :
    IsTold skips (d :: ds) (answers first inner rest) (step.map (0 :: ·)) call := by
  cases h with
  | enter h => exact .enter (at?_insideUnless h)
  | @leave p e h =>
    have hp := ne_nil_of_at? h
    have hnext (i : Nat) : answers first inner rest (0 :: p ++ [i]) = inner (p ++ [i]) :=
      answers_inside (by simp)
    have hhere : answers first inner rest (0 :: p) = inner p := answers_inside hp
    rw [← funext hnext, ← hhere]
    exact .leave (at?_insideUnless h)

theorem IsTold.shifted {step : Step} {call : Call} (h : IsTold skips ds rest step call) :
    IsTold skips (d :: ds) (answers first inner rest) (step.map Place.shifted) call := by
  cases h with
  | enter h => exact .enter (by rwa [at?_shifted])
  | @leave p e h =>
    have hp := ne_nil_of_at? h
    have hnext (i : Nat) :
        answers first inner rest (Place.shifted p ++ [i]) = rest (p ++ [i]) := by
      rw [← Place.shifted_append hp, answers_shifted (by simp)]
    have hhere : answers first inner rest (Place.shifted p) = rest p := answers_shifted hp
    rw [← funext hnext, ← hhere]
    exact .leave (by rwa [at?_shifted])

end

/-- A walk over `ds` from the state `s` on, step by step. -/
structure Follows (v : Visitor σ) (skips : Decl → Bool) (ds : List Decl) (s : σ) (steps : List Step)
    (calls : List Call) (replacement : Place → List Decl) : Prop where
  tour : Tour skips ds steps
  told : List.Forall₂ (IsTold skips ds replacement) steps calls
  recorded : ∀ log, v.recorded.walkAll ds (s, log) =
    ((v.walkAll ds s).1, (v.walkAll ds s).2, log ++ calls)
  left : (v.walkAll ds s).1 = (List.range ds.length).flatMap fun i => replacement [i]

theorem follows_nil (v : Visitor σ) (skips : Decl → Bool) (s : σ) :
    Follows v skips [] s [] [] fun _ => [] :=
  ⟨tour_nil, .nil, fun log => by simp [walkAll], rfl⟩

/-- A walk over what is entered inside a declaration and one over the rest are part of the walk over
both. -/
theorem Follows.around (hv : v.SkipsBy skips) {innerSteps restSteps : List Step}
    {innerCalls restCalls : List Call} {inner rest : Place → List Decl}
    (hinner : Follows v skips (d.insideUnless skips) (v.enter d s).2 innerSteps innerCalls inner)
    (hrest : Follows v skips ds (v.walk d s).2 restSteps restCalls rest) :
    ∃ calls, Follows v skips (d :: ds) s (stepsAround innerSteps restSteps) calls
      (answers (v.walk d s).1 inner rest) := by
  let out := v.walkAll (d.insideUnless skips) (v.enter d s).2
  have hwalk : v.walk d s = v.leave (d.leftWith skips out.1) out.2 := walk_of_skipsBy hv d s
  have hleft : d.leftWith skips out.1 =
      d.leftWith skips ((List.range d.inside.length).flatMap fun i => inner [i]) := by
    rw [show out.1 = _ from hinner.left]
    cases h : skips d <;> simp [leftWith, insideUnless, h]
  refine ⟨.enter d :: (innerCalls ++ .leave (d.leftWith skips out.1) (v.walk d s).1 :: restCalls),
    hinner.tour.around hrest.tour, ?_, ?_, ?_⟩
  · refine .cons (.enter rfl) (List.rel_append ?_ (.cons ?_ ?_))
    · exact List.forall₂_map_left_iff.2 (hinner.told.imp fun _ _ => IsTold.inside)
    · rw [hleft]
      exact .leave (p := [0]) rfl
    · exact List.forall₂_map_left_iff.2 (hrest.told.imp fun _ _ => IsTold.shifted)
  · intro log
    -- The calls from inside stand behind a log that ends with the entry.
    have hfirst : v.recorded.walk d (s, log) = ((v.walk d s).1, (v.walk d s).2,
        log ++ .enter d :: (innerCalls ++ [.leave (d.leftWith skips out.1) (v.walk d s).1])) := by
      rw [walk_of_skipsBy (skipsBy_recorded hv), recorded_enter, hinner.recorded, recorded_leave,
        hwalk]
      simp [out]
    rw [walkAll, hfirst]
    simp only [hrest.recorded, walkAll]
    simp
  · rw [List.length_cons, flatMap_answers, ← hrest.left]
    rfl

theorem exists_follows (hv : v.SkipsBy skips) (ds : List Decl) (s : σ) :
    ∃ steps calls replacement, Follows v skips ds s steps calls replacement := by
  induction ds using Decl.induct_inside generalizing s with
  | nil => exact ⟨_, _, _, follows_nil v skips s⟩
  | cons d ds ihinside ihrest =>
    obtain ⟨innerSteps, innerCalls, inner, hinner⟩ : ∃ steps calls replacement,
        Follows v skips (d.insideUnless skips) (v.enter d s).2 steps calls replacement := by
      -- What is skipped is walked like a declaration with nothing inside.
      rw [insideUnless]
      split
      · exact ⟨_, _, _, follows_nil v skips _⟩
      · exact ihinside _
    obtain ⟨restSteps, restCalls, rest, hrest⟩ := ihrest (v.walk d s).2
    obtain ⟨calls, h⟩ := hinner.around hv hrest
    exact ⟨_, calls, _, h⟩

/-- A visitor that skips by a predicate is told of the beginning of a walk, then of a tour through
the list, and then of the end. At each place of the tour it is told of the declaration that stands
there in the list, on leaving with what it answered for those inside in their place, and what it
answered at the top is what is left. -/
theorem traverse_tour (v : Visitor σ) (skips : Decl → Bool) (hv : v.SkipsBy skips)
    (ds : List Decl) (s : σ) :
    ∃ steps calls replacement,
      v.recorded.traverse ds (s, []) =
          ((v.traverse ds s).1, (v.traverse ds s).2, .before :: (calls ++ [.after])) ∧
        Tour skips ds steps ∧
        List.Forall₂ (IsTold skips ds replacement) steps calls ∧
        (v.traverse ds s).1 = (List.range ds.length).flatMap fun i => replacement [i] := by
  obtain ⟨steps, calls, replacement, h⟩ := exists_follows hv ds (v.before s)
  refine ⟨steps, calls, replacement, ?_, h.tour, h.told, h.left⟩
  have hrecorded : v.recorded.walkAll ds (v.recorded.before (s, [])) = _ := h.recorded [.before]
  rw [traverse_eq, hrecorded]
  rfl

/-- Skips functions, drops verbatim text, and puts any other declaration as often as the number
says, which grows by one each time. -/
def copying : Visitor Nat where
  enter
    | .function h body, n => ((.function h body, .skip), n)
    | d, n => ((d, .into), n)
  leave
    | .verbatim .., n => ([], n)
    | d, n => (List.replicate n d, n + 1)

def isFunction : Decl → Bool
  | .function .. => true
  | _ => false

/-- A namespace with a function, a text and a guard in it, and a constant behind it. -/
def copied : List Decl :=
  [.space (some "N") [.function { name := "f" } [.verbatim "return;" true], .verbatim "f();" true,
    .guarded "c" [.traitUse {}]], .const {}]

theorem traverse_copied :
    copying.SkipsBy isFunction ∧
      let f := Decl.function { name := "f" } [.verbatim "return;" true]
      let guard := Decl.guarded "c" [.traitUse {}, .traitUse {}]
      let space := Decl.space (some "N") [f, guard, guard, guard]
      ∃ steps replacement, Tour isFunction copied steps ∧
        List.Forall₂ (IsTold isFunction copied replacement) steps
          [.enter (.space (some "N") [f, .verbatim "f();" true, .guarded "c" [.traitUse {}]]),
            .enter f, .leave f [f],
            .enter (.verbatim "f();" true), .leave (.verbatim "f();" true) [],
            .enter (.guarded "c" [.traitUse {}]),
            .enter (.traitUse {}), .leave (.traitUse {}) [.traitUse {}, .traitUse {}],
            .leave guard [guard, guard, guard],
            .leave space [space, space, space, space],
            .enter (.const {}), .leave (.const {}) (List.replicate 5 (.const {}))] ∧
        replacement [0] ++ replacement [1] =
          List.replicate 4 space ++ List.replicate 5 (.const {}) := by
  have hskips : copying.SkipsBy isFunction := by
    intro d n
    cases d <;> rfl
  refine ⟨hskips, ?_⟩
  obtain ⟨steps, calls, replacement, hlog, htour, htold, hleft⟩ :=
    traverse_tour copying isFunction hskips copied 1
  have hcalls :
      (copying.recorded.traverse copied (1, [])).2.2 = .before :: (calls ++ [.after]) := by
    rw [hlog]
  obtain rfl := List.append_cancel_right (List.cons.inj hcalls).2
  have htop : replacement [0] ++ replacement [1] =
      (List.range copied.length).flatMap fun i => replacement [i] := by
    simp [copied, List.range_succ]
  exact ⟨steps, replacement, htour, htold, htop.trans hleft.symm⟩

end Visitor

end Stubsmith
