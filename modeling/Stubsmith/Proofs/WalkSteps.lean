import Stubsmith.Proofs.Acceptance
import Stubsmith.Proofs.Shape

namespace Stubsmith

namespace Request

variable {r : Request} {s : ExtractState} {d : Decl} {kind : ClassKind} {extensible : Bool}
  {f : List Frame}

/-- A walk inside a class-like that is kept looks at each member and stays as it is. -/
theorem walk_member (hd : d.fits .member) (hs : s.frames = .classLike kind extensible :: f)
    (hin : s.inDeclaration = true) :
    r.visitor.walk d s =
      (if r.keepsMember (.classLike kind extensible) d then [stubMember d] else [], s) := by
  obtain ⟨frames, found, inDeclaration, inGuard⟩ := s
  obtain rfl : frames = .classLike kind extensible :: f := hs
  obtain rfl : inDeclaration = true := hin
  cases d with
  | method h body => cases body <;> rfl
  | property p => rfl
  | classConst c => rfl
  | traitUse u => rfl
  | enumCase c => rfl
  | verbatim text statement => rfl
  | _ => simp [Decl.fits] at hd

theorem walkAll_members {body : List Decl} (hb : Decl.fitsAll .member body)
    (hs : s.frames = .classLike kind extensible :: f) (hin : s.inDeclaration = true) :
    r.visitor.walkAll body s =
      ((body.filter (r.keepsMember (.classLike kind extensible))).map stubMember, s) := by
  induction body with
  | nil => rfl
  | cons d body ih =>
    simp only [Decl.fitsAll, Bool.and_eq_true] at hb
    rw [Visitor.walkAll, walk_member hb.1 hs hin]
    simp only [ih hb.2]
    cases h : r.keepsMember (.classLike kind extensible) d <;> simp [h]

/-- A statement is judged below its parent when the walk leaves it, unless it is a guard that will
be opened. -/
theorem walk_statement (hd : d.fits .statement) (hin : s.inDeclaration = false)
    (hguard : s.inGuard = true ∨ ∀ c body, d ≠ .guarded c body) :
    r.visitor.walk d s =
      r.settle s.frames.head? (r.visited (!s.frames.all Frame.isSpace) d) s := by
  obtain ⟨frames, found, inDeclaration, inGuard⟩ := s
  obtain rfl : inDeclaration = false := hin
  cases d with
  | function h body => rfl
  | classLike h body =>
    simp only [Decl.fits, Bool.and_eq_true] at hd
    cases hsel : r.selection.hasClassKind h.kind with
    | true =>
      have members := walkAll_members (r := r) (f := frames)
        (s := ⟨.classLike h.kind h.isExtensible :: frames, found, true, inGuard⟩) hd.2 rfl rfl
      simp only [Visitor.walk, Visitor.around, visitor, enter, enterWithin, frameOf, visited, hsel,
        if_true]
      simp only [visitor] at members
      rw [members]
      rfl
    | false =>
      simp only [Visitor.walk, Visitor.around, visitor, enter, enterWithin, frameOf, visited, hsel]
      rfl
  | const c => rfl
  | define c => cases hname : c.name <;> simp [Visitor.walk, Visitor.around, visitor, enter,
      enterWithin, frameOf, visited, hname, leave, settle, endsDeclaration, Decl.withChildren]
  | assign a =>
    simp only [visited, Bool.not_not]
    rfl
  | guarded c body =>
    obtain rfl : inGuard = true := hguard.resolve_right fun h => h c body rfl
    rfl
  | verbatim text statement => rfl
  | method h body => cases body <;> simp [Decl.fits] at hd
  | _ => simp [Decl.fits] at hd

/-- Behind a guard a statement stays where it is until the walk leaves the guard. -/
theorem walk_behind_guard (hd : d.fits .statement) (hs : s.frames = .guard true :: f)
    (hin : s.inDeclaration = false) (hguard : s.inGuard = true) :
    r.visitor.walk d s = ([r.visited true d], s) := by
  rw [walk_statement hd hin (.inl hguard), hs]
  obtain ⟨frames, found, inDeclaration, inGuard⟩ := s
  obtain rfl : inDeclaration = false := hin
  cases d with
  | classLike h body => cases hsel : r.selection.hasClassKind h.kind <;>
      simp [visited, hsel, settle, endsDeclaration, keepsMember]
  | method h body => cases body <;> simp [Decl.fits] at hd
  | space name body => simp [Decl.fits] at hd
  | _ => rfl

theorem walkAll_behind_guard {body : List Decl} (hb : Decl.fitsAll .statement body)
    (hs : s.frames = .guard true :: f) (hin : s.inDeclaration = false)
    (hguard : s.inGuard = true) :
    r.visitor.walkAll body s = (body.map (r.visited true), s) := by
  induction body with
  | nil => rfl
  | cons d body ih =>
    simp only [Decl.fitsAll, Bool.and_eq_true] at hb
    rw [Visitor.walkAll, walk_behind_guard hb.1 hs hin hguard]
    simp only [ih hb.2]
    rfl

/-- Leaving a guard on the first level judges what is behind it. -/
theorem walk_guard {condition : Fragment} {body : List Decl} (hb : Decl.fitsAll .statement body)
    (hin : s.inDeclaration = false) (hguard : s.inGuard = false) :
    r.visitor.walk (.guarded condition body) s =
      let out := r.settleAll s.frames.head? (body.map (r.visited true)) { s with inGuard := true }
      (out.1, { out.2 with inGuard := false }) := by
  obtain ⟨frames, found, inDeclaration, inGuard⟩ := s
  obtain rfl : inDeclaration = false := hin
  obtain rfl : inGuard = false := hguard
  have inside := walkAll_behind_guard (r := r) (f := frames)
    (s := ⟨.guard true :: frames, found, false, true⟩) hb rfl rfl rfl
  simp only [visitor] at inside
  simp only [Visitor.walk, Visitor.around, visitor, enter, enterWithin, frameOf, Bool.not_false,
    Bool.false_eq_true, if_false, inside]
  rfl

end Request

end Stubsmith
