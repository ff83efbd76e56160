import Mathlib.Data.List.Basic
import Stubsmith.Decl.Walk

namespace Stubsmith

/-- Where a declaration stands: which one of a list, which one of its children, and so on down. -/
abbrev Place := List Nat

namespace Place

variable {p q : Place} {i j : Nat}

/-- The same place when one more declaration stands in front of all. -/
def shifted : Place → Place
  | [] => []
  | i :: p => (i + 1) :: p

/-- Whether what stands at `p` is left before what stands at `q`: it is inside or in front of it. -/
def LeftBefore (p q : Place) : Prop :=
  (q <+: p ∧ q ≠ p) ∨ (p < q ∧ ¬ p <+: q)

theorem shifted_append (hp : p ≠ []) (q : Place) : shifted (p ++ q) = shifted p ++ q := by
  cases p with
  | nil => exact absurd rfl hp
  | cons i p => rfl

theorem shifted_injective : Function.Injective shifted := by
  intro p q h
  cases p <;> cases q <;> simp_all [shifted]

/-- What stands around a shifted place is shifted with it. -/
theorem prefix_shifted_iff : q <+: shifted p ↔ ∃ r, r <+: p ∧ shifted r = q := by
  constructor
  · intro h
    cases p with
    | nil => exact ⟨[], List.nil_prefix, (List.prefix_nil.1 h).symm⟩
    | cons i p =>
      rcases List.prefix_cons_iff.1 h with rfl | ⟨q, rfl, hq⟩
      · exact ⟨[], List.nil_prefix, rfl⟩
      · exact ⟨i :: q, List.cons_prefix_cons.2 ⟨rfl, hq⟩, rfl⟩
  · rintro ⟨r, ⟨t, rfl⟩, rfl⟩
    cases r with
    | nil => exact List.nil_prefix
    | cons i r => exact ⟨t, rfl⟩

theorem shifted_lt (h : p < q) : shifted p < shifted q := by
  cases p with
  | nil => cases q <;> simp_all [shifted]
  | cons i p => cases q <;> simp_all [shifted, List.cons_lt_cons_iff]

/-- What stands in the first of a list is in front of the rest. -/
theorem lt_shifted (hq : q ≠ []) : 0 :: p < shifted q := by
  obtain ⟨i, q, rfl⟩ := List.exists_cons_of_ne_nil hq
  exact List.cons_lt_cons_iff.2 (.inl i.succ_pos)

theorem leftBefore_cons (h : LeftBefore p q) : LeftBefore (i :: p) (i :: q) := by
  simpa [LeftBefore, List.cons_prefix_cons, List.cons_lt_cons_iff] using h

theorem leftBefore_inside (h : p ≠ []) : LeftBefore (i :: p) [i] := by
  refine .inl ⟨List.cons_prefix_cons.2 ⟨rfl, List.nil_prefix⟩, ?_⟩
  simpa using Ne.symm h

theorem leftBefore_shifted (h : LeftBefore p q) : LeftBefore (shifted p) (shifted q) := by
  cases p with
  | nil => simp [LeftBefore] at h
  | cons i p =>
    cases q with
    | nil => simp [LeftBefore, shifted]
    | cons j q => simpa [LeftBefore, shifted, List.cons_prefix_cons, List.cons_lt_cons_iff] using h

theorem leftBefore_first (hq : q ≠ []) : LeftBefore (0 :: p) (shifted q) := by
  refine .inr ⟨lt_shifted hq, fun hprefix => ?_⟩
  obtain ⟨i, q, rfl⟩ := List.exists_cons_of_ne_nil hq
  exact Nat.ne_of_lt i.succ_pos (List.cons_prefix_cons.1 hprefix).1

variable {ps qs : List Place}

/-- Places in the order of entering, inside the first declaration of a list and behind it. -/
theorem pairwise_entered_around (hps : ps.Pairwise (· < ·)) (hqs : qs.Pairwise (· < ·))
    (hp : ∀ p ∈ ps, p ≠ []) (hq : ∀ q ∈ qs, q ≠ []) :
    ([0] :: (ps.map (0 :: ·) ++ qs.map shifted)).Pairwise (· < ·) := by
  rw [List.pairwise_cons, List.pairwise_append, List.pairwise_map, List.pairwise_map]
  refine ⟨?_, hps.imp fun h => List.cons_lt_cons_iff.2 (.inr ⟨rfl, h⟩), hqs.imp shifted_lt, ?_⟩
  · intro a ha
    rcases List.mem_append.1 ha with ha | ha
    · obtain ⟨p, hmem, rfl⟩ := List.mem_map.1 ha
      obtain ⟨i, p, rfl⟩ := List.exists_cons_of_ne_nil (hp p hmem)
      simp
    · obtain ⟨q, hmem, rfl⟩ := List.mem_map.1 ha
      exact lt_shifted (hq q hmem)
  · intro a ha b hb
    obtain ⟨p, -, rfl⟩ := List.mem_map.1 ha
    obtain ⟨q, hmem, rfl⟩ := List.mem_map.1 hb
    exact lt_shifted (hq q hmem)

/-- Places in the order of leaving, inside the first declaration of a list and behind it. -/
theorem pairwise_left_around (hps : ps.Pairwise LeftBefore) (hqs : qs.Pairwise LeftBefore)
    (hp : ∀ p ∈ ps, p ≠ []) (hq : ∀ q ∈ qs, q ≠ []) :
    (ps.map (0 :: ·) ++ [0] :: qs.map shifted).Pairwise LeftBefore := by
  have behind (p : Place) : ∀ b ∈ qs.map shifted, LeftBefore (0 :: p) b :=
    List.forall_mem_map.2 fun q hmem => leftBefore_first (hq q hmem)
  rw [List.pairwise_append, List.pairwise_cons, List.pairwise_map, List.pairwise_map]
  refine ⟨hps.imp leftBefore_cons, ⟨behind [], hqs.imp leftBefore_shifted⟩, ?_⟩
  intro a ha b hb
  obtain ⟨p, hmem, rfl⟩ := List.mem_map.1 ha
  rcases List.mem_cons.1 hb with rfl | hb
  · exact leftBefore_inside (hp p hmem)
  · exact behind p b hb

end Place

namespace Decl

/-- The declarations inside a declaration; none where it has no list of them. -/
def inside (d : Decl) : List Decl :=
  d.children?.getD []

/-- What a walk enters inside a declaration. -/
def insideUnless (skips : Decl → Bool) (d : Decl) : List Decl :=
  if skips d then [] else d.inside

/-- What holds of the empty list, and of a list as soon as it holds of what is inside the first
declaration and of the rest, holds of every list of declarations. -/
@[elab_as_elim]
theorem induct_inside {P : List Decl → Prop} (nil : P [])
    (cons : ∀ d ds, P d.inside → P ds → P (d :: ds)) (ds : List Decl) : P ds := by
  have all (ds : List Decl) (h : ∀ d ∈ ds, P d.inside) : P ds := by
    induction ds with
    | nil => exact nil
    | cons d ds ih =>
      obtain ⟨hd, hds⟩ := List.forall_mem_cons.1 h
      exact cons d ds hd (ih hds)
  have each (d : Decl) : P d.inside := by
    induction d using Decl.induct_children with
    | step d ih =>
      cases hbody : d.children? with
      | none => simpa [inside, hbody] using nil
      | some body => simpa [inside, hbody] using all body (ih body hbody)
  exact all ds fun d _ => each d

/-- The declaration at a place. The empty place is that of the list itself. -/
def at? (ds : List Decl) : Place → Option Decl
  | [] => none
  | [i] => ds[i]?
  | i :: j :: p => ds[i]?.bind fun d => at? d.inside (j :: p)

/-- Whether a walk gets to a place: a declaration stands there, and none around it is skipped. -/
structure IsReached (skips : Decl → Bool) (ds : List Decl) (p : Place) : Prop where
  stands : (at? ds p).isSome
  around : ∀ q d, q <+: p → q ≠ p → at? ds q = some d → skips d = false

variable {skips : Decl → Bool} {d : Decl} {ds : List Decl} {p : Place}

theorem at?_inside (hp : p ≠ []) : at? (d :: ds) (0 :: p) = at? d.inside p := by
  cases p with
  | nil => exact absurd rfl hp
  | cons i p => rfl

@[simp]
theorem at?_shifted : at? (d :: ds) (Place.shifted p) = at? ds p := by
  match p with
  | [] => rfl
  | [i] => rfl
  | i :: j :: p => rfl

theorem at?_empty : at? [] p = none := by
  match p with
  | [] => rfl
  | [i] => rfl
  | i :: j :: p => rfl

theorem ne_nil_of_at? (h : at? ds p = some d) : p ≠ [] := by
  rintro rfl
  cases h

theorem at?_insideUnless {e : Decl} (h : at? (d.insideUnless skips) p = some e) :
    at? (d :: ds) (0 :: p) = some e := by
  rw [insideUnless] at h
  split at h
  · rw [at?_empty] at h
    cases h
  · rw [at?_inside (ne_nil_of_at? h), h]

theorem IsReached.ne_nil (h : IsReached skips ds p) : p ≠ [] := by
  obtain ⟨d, hd⟩ := Option.isSome_iff_exists.1 h.stands
  exact ne_nil_of_at? hd

theorem isReached_first : IsReached skips (d :: ds) [0] := by
  refine ⟨rfl, fun q e hprefix hne hq => ?_⟩
  obtain rfl : q = [] := by simpa [List.prefix_cons_iff, hne] using hprefix
  cases hq

theorem isReached_inside (hp : p ≠ []) :
    IsReached skips (d :: ds) (0 :: p) ↔ IsReached skips (d.insideUnless skips) p := by
  constructor
  · intro h
    -- The declaration itself is around the place, so it is not skipped.
    have hd : skips d = false := h.around [0] d (by simp) (by simpa using Ne.symm hp) rfl
    have hinside : d.insideUnless skips = d.inside := by simp [insideUnless, hd]
    have hstands := h.stands
    rw [at?_inside hp] at hstands
    rw [hinside]
    refine ⟨hstands, fun q e hprefix hne hq => ?_⟩
    refine h.around (0 :: q) e (List.cons_prefix_cons.2 ⟨rfl, hprefix⟩) (by simpa using hne) ?_
    rw [at?_inside (ne_nil_of_at? hq), hq]
  · intro h
    obtain ⟨e, he⟩ := Option.isSome_iff_exists.1 h.stands
    refine ⟨by rw [at?_insideUnless he]; rfl, fun q f hprefix hne hq => ?_⟩
    have hd : skips d = false := by
      by_contra hskip
      rw [insideUnless, if_pos (by simpa using hskip), at?_empty] at he
      cases he
    rcases List.prefix_cons_iff.1 hprefix with rfl | ⟨q, rfl, hbelow⟩
    · cases hq
    by_cases hnil : q = []
    · subst hnil
      cases hq
      exact hd
    · refine h.around q f hbelow (by simpa using hne) ?_
      rw [insideUnless, if_neg (by simp [hd]), ← at?_inside hnil, hq]

theorem isReached_shifted : IsReached skips (d :: ds) (Place.shifted p) ↔ IsReached skips ds p := by
  constructor
  · intro h
    refine ⟨by simpa using h.stands, fun q e hprefix hne hq => ?_⟩
    have hne' : Place.shifted q ≠ Place.shifted p := fun heq => hne (Place.shifted_injective heq)
    exact h.around _ e (Place.prefix_shifted_iff.2 ⟨q, hprefix, rfl⟩) hne' (by rw [at?_shifted, hq])
  · intro h
    refine ⟨by simpa using h.stands, fun q e hprefix hne hq => ?_⟩
    obtain ⟨r, hr, rfl⟩ := Place.prefix_shifted_iff.1 hprefix
    rw [at?_shifted] at hq
    exact h.around r e hr (fun heq => hne (congrArg _ heq)) hq

/-- A walk gets to the first declaration, to what it enters inside, and to what comes behind. -/
theorem isReached_cons_iff : IsReached skips (d :: ds) p ↔
    p = [0] ∨ (∃ q, IsReached skips (d.insideUnless skips) q ∧ 0 :: q = p) ∨
      ∃ q, IsReached skips ds q ∧ Place.shifted q = p := by
  constructor
  · intro h
    match p with
    | [] => exact absurd rfl h.ne_nil
    | [0] => exact .inl rfl
    | 0 :: i :: p => exact .inr (.inl ⟨i :: p, (isReached_inside (by simp)).1 h, rfl⟩)
    | (i + 1) :: p => exact .inr (.inr ⟨i :: p, isReached_shifted.1 h, rfl⟩)
  · rintro (rfl | ⟨q, hq, rfl⟩ | ⟨q, hq, rfl⟩)
    · exact isReached_first
    · exact (isReached_inside hq.ne_nil).2 hq
    · exact isReached_shifted.2 hq

end Decl

namespace Visitor

open Decl

inductive Side where
  | enter
  | leave
deriving DecidableEq, Repr

/-- A step of a walk: what stands at a place is entered or left. -/
structure Step where
  side : Side
  place : Place
deriving DecidableEq, Repr

def Step.map (f : Place → Place) (step : Step) : Step :=
  { step with place := f step.place }

/-- The places that are entered, or those that are left, one after the other. -/
def places (side : Side) (steps : List Step) : List Place :=
  (steps.filter (·.side = side)).map Step.place

theorem places_map {side : Side} {steps : List Step} (f : Place → Place) :
    places side (steps.map (.map f)) = (places side steps).map f := by
  rw [places, places, List.filter_map, List.map_map, List.map_map]
  rfl

/-- Steps in which what is entered is left again, and what is entered in between before that. -/
inductive Nested : List Step → Prop where
  | nil : Nested []
  | around (p : Place) {inner rest : List Step} (hinner : Nested inner) (hrest : Nested rest) :
    Nested (⟨.enter, p⟩ :: (inner ++ ⟨.leave, p⟩ :: rest))

theorem Nested.map (f : Place → Place) {steps : List Step} (h : Nested steps) :
    Nested (steps.map (Step.map f)) := by
  induction h with
  | nil => exact .nil
  | around p _ _ ihinner ihrest => simpa using .around (f p) ihinner ihrest

/-- Steps that enter every place which a walk gets to and leave it again: each once, from the front
to the back, what is inside a declaration entered behind it and left before it. -/
structure Tour (skips : Decl → Bool) (ds : List Decl) (steps : List Step) : Prop where
  nested : Nested steps
  entered : (places .enter steps).Pairwise (· < ·)
  left : (places .leave steps).Pairwise Place.LeftBefore
  mem_iff : ∀ side p, p ∈ places side steps ↔ IsReached skips ds p

/-- The steps through a first declaration and what is inside, and then through those behind it. -/
def stepsAround (inner rest : List Step) : List Step :=
  ⟨.enter, [0]⟩ :: (inner.map (.map (0 :: ·)) ++ ⟨.leave, [0]⟩ :: rest.map (.map Place.shifted))

variable {skips : Decl → Bool} {d : Decl} {ds : List Decl} {inner rest : List Step}

theorem places_enter_stepsAround : places .enter (stepsAround inner rest) =
    [0] :: ((places .enter inner).map (0 :: ·) ++ (places .enter rest).map Place.shifted) := by
  rw [← places_map, ← places_map]
  simp [stepsAround, places]

theorem places_leave_stepsAround : places .leave (stepsAround inner rest) =
    (places .leave inner).map (0 :: ·) ++ [0] :: (places .leave rest).map Place.shifted := by
  rw [← places_map, ← places_map]
  simp [stepsAround, places]

theorem mem_places_stepsAround {side : Side} {p : Place} :
    p ∈ places side (stepsAround inner rest) ↔
      p = [0] ∨ (∃ q ∈ places side inner, 0 :: q = p) ∨
        ∃ q ∈ places side rest, Place.shifted q = p := by
  cases side with
  | enter => simp [places_enter_stepsAround]
  | leave =>
    simp only [places_leave_stepsAround, List.mem_append, List.mem_cons, List.mem_map]
    exact or_left_comm

theorem tour_nil : Tour skips [] [] := by
  refine ⟨.nil, .nil, .nil, fun side p => ?_⟩
  have hnone : ¬ IsReached skips [] p := fun h => by simpa [at?_empty] using h.stands
  simpa [places] using hnone

/-- A tour through what is entered inside a declaration and one through those behind it make one. -/
theorem Tour.around (hinner : Tour skips (d.insideUnless skips) inner)
    (hrest : Tour skips ds rest) : Tour skips (d :: ds) (stepsAround inner rest) := by
  have hinside (side : Side) : ∀ p ∈ places side inner, p ≠ [] :=
    fun p hp => ((hinner.mem_iff side p).1 hp).ne_nil
  have hbehind (side : Side) : ∀ p ∈ places side rest, p ≠ [] :=
    fun p hp => ((hrest.mem_iff side p).1 hp).ne_nil
  refine ⟨.around [0] (hinner.nested.map _) (hrest.nested.map _), ?_, ?_, fun side p => ?_⟩
  · rw [places_enter_stepsAround]
    exact Place.pairwise_entered_around hinner.entered hrest.entered (hinside _) (hbehind _)
  · rw [places_leave_stepsAround]
    exact Place.pairwise_left_around hinner.left hrest.left (hinside _) (hbehind _)
  · simp only [mem_places_stepsAround, isReached_cons_iff, hinner.mem_iff, hrest.mem_iff]

end Visitor

end Stubsmith
