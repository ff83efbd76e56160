import Mathlib.Data.List.Basic
import Stubsmith.Extract.Pass

namespace Stubsmith

namespace Decl

def isGuard : Decl → Bool
  | .guarded .. => true
  | _ => false

mutual

/-- Whether every method stands in the body of a class-like, at whatever depth. -/
def hasMethodsInside : Decl → Bool
  | .method .. => false
  | .space _ body | .function _ body | .guarded _ body => haveMethodsInside body
  | _ => true

def haveMethodsInside : List Decl → Bool
  | [] => true
  | d :: ds => hasMethodsInside d && haveMethodsInside ds

end

theorem haveMethodsInside_iff {ds : List Decl} :
    haveMethodsInside ds ↔ ∀ d ∈ ds, d.hasMethodsInside := by
  induction ds with
  | nil => simp [haveMethodsInside]
  | cons d ds ih => simp [haveMethodsInside, ih]

end Decl

/-- Two states of a walk in the same place: inside the same declarations, and both in a guard or
neither. -/
structure SamePlace (s t : ExtractState) : Prop where
  frames : t.frames = s.frames
  inGuard : t.inGuard = s.inGuard

theorem SamePlace.trans {s t u : ExtractState} (hst : SamePlace s t) (htu : SamePlace t u) :
    SamePlace s u :=
  ⟨htu.frames.trans hst.frames, htu.inGuard.trans hst.inGuard⟩

namespace Request

variable {r : Request} {s t : ExtractState} {d : Decl} {ds : List Decl}

section Settle

variable (parent : Option Frame)

/-- Judging a declaration changes what was found, and the walk may be done with a declaration. -/
theorem exists_settle_eq : ∃ left found, r.settle parent d s =
    (left, { s with found := found, inDeclaration := !endsDeclaration d && s.inDeclaration }) := by
  have candidate (space : Option String) : ∃ left found, r.settleCandidate space d
      { s with inDeclaration := !endsDeclaration d && s.inDeclaration } =
        (left, { s with found, inDeclaration := !endsDeclaration d && s.inDeclaration }) := by
    rw [settleCandidate]
    split <;> exact ⟨_, _, rfl⟩
  cases d with
  | space name body => cases body <;> exact ⟨_, _, rfl⟩
  | _ =>
    match parent with
    | none => exact candidate none
    | some (.space name) => exact candidate (some name)
    | some (.classLike ..) | some (.guard _) | some .other => exact ⟨_, _, rfl⟩

theorem samePlace_settle : SamePlace s (r.settle parent d s).2 := by
  obtain ⟨left, found, h⟩ := exists_settle_eq (r := r) (s := s) (d := d) parent
  rw [h]
  exact ⟨rfl, rfl⟩

theorem inDeclaration_settle :
    (r.settle parent d s).2.inDeclaration = (!endsDeclaration d && s.inDeclaration) := by
  obtain ⟨left, found, h⟩ := exists_settle_eq (r := r) (s := s) (d := d) parent
  rw [h]

theorem samePlace_settleAll : SamePlace s (r.settleAll parent ds s).2 := by
  induction ds generalizing s with
  | nil => exact ⟨rfl, rfl⟩
  | cons d ds ih => exact (samePlace_settle parent).trans ih

theorem inDeclaration_settleAll (hs : s.inDeclaration = false) :
    (r.settleAll parent ds s).2.inDeclaration = false := by
  induction ds generalizing s with
  | nil => exact hs
  | cons d ds ih =>
    have hhere : (r.settle parent d s).2.inDeclaration = false := by
      rw [inDeclaration_settle, hs, Bool.and_false]
    exact ih hhere

/-- At the top level nothing stays where it is. -/
theorem settle_top : (r.settle none d s).1 = [] := by
  have candidate (d : Decl) (s : ExtractState) : (r.settleCandidate none d s).1 = [] := by
    rw [settleCandidate]
    split
    · rfl
    · next d _ _ =>
      cases d with
      | classLike h body => cases hname : h.name <;> simp [place, hname]
      | verbatim text statement => cases statement <;> rfl
      | _ => rfl
  cases d with
  | space name body => cases body <;> rfl
  | _ => exact candidate _ _

theorem settleAll_top : (r.settleAll none ds s).1 = [] := by
  induction ds generalizing s with
  | nil => rfl
  | cons d ds ih =>
    have hhere : (r.settle none d s).1 = [] := settle_top
    simp only [settleAll, hhere, ih, List.append_nil]

end Settle

/-- What entering a declaration does, up to what it changes in the declaration. -/
structure Entered (d : Decl) (s : ExtractState) (d' : Decl) (t : ExtractState) : Prop where
  frames : t.frames = frameOf s d :: s.frames
  inGuard : t.inGuard = (d.isGuard || s.inGuard)
  isGuard : d'.isGuard = d.isGuard
  ends : endsDeclaration d' = endsDeclaration d
  /-- Only a method starts what it does not end. -/
  inDeclaration : endsDeclaration d = false → (∀ h body, d ≠ .method h body) →
    t.inDeclaration = s.inDeclaration

theorem entered_enter : Entered d s (r.enter d s).1.1 (r.enter d s).2 := by
  cases d with
  | classLike h body =>
    cases hsel : r.selection.hasClassKind h.kind <;>
      exact ⟨by simp [enter, enterWithin, hsel], by simp [enter, enterWithin, hsel, Decl.isGuard],
        rfl, rfl, nofun⟩
  | define c =>
    cases hname : c.name <;>
      exact ⟨by simp [enter, enterWithin, hname], by simp [enter, enterWithin, hname, Decl.isGuard],
        rfl, rfl, nofun⟩
  | guarded c body =>
    cases hguard : s.inGuard <;>
      exact ⟨by simp [enter, enterWithin, hguard],
        by simp [enter, enterWithin, hguard, Decl.isGuard],
        by simp [enter, enterWithin, hguard], by simp [enter, enterWithin, hguard],
        fun _ _ => by simp [enter, enterWithin, hguard]⟩
  | method h body => exact ⟨rfl, rfl, rfl, rfl, fun _ hmethod => absurd rfl (hmethod h body)⟩
  | function | const | assign => exact ⟨rfl, rfl, rfl, rfl, nofun⟩
  | _ => exact ⟨rfl, rfl, rfl, rfl, fun _ _ => rfl⟩

theorem Entered.withChildren {d' : Decl} (h : Entered d s d' t) (body : List Decl) :
    Entered d s (d'.withChildren body) t := by
  refine ⟨h.frames, h.inGuard, ?_, ?_, h.inDeclaration⟩
  · rw [← h.isGuard]
    cases d' with
    | method head inner => cases inner <;> rfl
    | _ => rfl
  · rw [← h.ends]
    cases d' with
    | method head inner => cases inner <;> rfl
    | _ => rfl

/-- At the end the walk leaves what it entered, in the state in which it entered it or, where it
goes below, in that behind the children. -/
theorem exists_walk_eq (r : Request) (d : Decl) (s : ExtractState) :
    ∃ d' t u, Entered d s d' t ∧
      (u = t ∨ ∃ body, d.children? = some body ∧ u = (r.visitor.walkAll body t).2) ∧
      r.visitor.walk d s = r.leave d' u := by
  have hentered := entered_enter (r := r) (d := d) (s := s)
  rw [Visitor.walk_eq_around, Visitor.around, show r.visitor.enter d s = r.enter d s from rfl]
  generalize r.enter d s = out at hentered
  obtain ⟨⟨d', descent⟩, t⟩ := out
  cases descent with
  | into =>
    cases hbody : d.children? with
    | none => exact ⟨_, t, _, hentered.withChildren [], .inl rfl, rfl⟩
    | some body => exact ⟨_, t, _, hentered.withChildren _, .inr ⟨body, rfl, rfl⟩, rfl⟩
  | skip => exact ⟨_, t, _, hentered, .inl rfl, rfl⟩
  | drop => exact ⟨_, t, _, hentered.withChildren [], .inl rfl, rfl⟩

section Leave

variable {d' : Decl} {u : ExtractState}

theorem leave_of_not_guard (h : d'.isGuard = false) :
    r.leave d' u = r.settle u.frames.tail.head? d' { u with frames := u.frames.tail } := by
  unfold leave
  split
  · exact nomatch h
  · rfl

theorem leave_guard {first : Bool} {frames : List Frame} {c : Fragment} {body : List Decl}
    (hu : u.frames = .guard first :: frames) :
    r.leave (.guarded c body) u =
      if first then
        let out := r.settleAll frames.head? body { u with frames := frames }
        (out.1, { out.2 with inGuard := false })
      else r.settle frames.head? (.guarded c body) { u with frames := frames } := by
  cases first <;> simp [leave, hu]

/-- Leaving a declaration takes back what entering it noted. -/
theorem samePlace_leave (h : Entered d s d' t) (hu : SamePlace t u) :
    SamePlace s (r.leave d' u).2 := by
  have hframes : u.frames = frameOf s d :: s.frames := hu.frames.trans h.frames
  have hguard : u.inGuard = (d.isGuard || s.inGuard) := hu.inGuard.trans h.inGuard
  have settled := samePlace_settle (r := r) (d := d') (s := { u with frames := s.frames })
    s.frames.head?
  cases hd : d.isGuard with
  | false =>
    have hplain : d'.isGuard = false := h.isGuard.trans hd
    rw [hd, Bool.false_or] at hguard
    rw [leave_of_not_guard hplain, hframes]
    exact ⟨settled.frames, settled.inGuard.trans hguard⟩
  | true =>
    obtain ⟨c, body, rfl⟩ : ∃ c body, d' = .guarded c body := by
      have hd' : d'.isGuard := h.isGuard.trans hd
      cases d' <;> first | exact ⟨_, _, rfl⟩ | exact nomatch hd'
    have hframe : frameOf s d = .guard (!s.inGuard) := by
      cases d <;> first | rfl | exact nomatch hd
    rw [hframe] at hframes
    rw [hd, Bool.true_or] at hguard
    rw [leave_guard hframes]
    cases hs : s.inGuard with
    | true => exact ⟨settled.frames, settled.inGuard.trans (hguard.trans hs.symm)⟩
    | false =>
      have hall : SamePlace { u with frames := s.frames }
          (r.settleAll s.frames.head? body { u with frames := s.frames }).2 :=
        samePlace_settleAll _
      exact ⟨hall.frames, hs.symm⟩

/-- What is left at the top level leaves nothing behind. -/
theorem leave_top (hu : u.frames.tail = []) : (r.leave d' u).1 = [] := by
  unfold leave
  rw [hu]
  split
  · exact settleAll_top
  · exact settle_top

theorem inDeclaration_leave (h : endsDeclaration d' ∨ u.inDeclaration = false) :
    (r.leave d' u).2.inDeclaration = false := by
  unfold leave
  split
  · exact inDeclaration_settleAll _ (h.resolve_left nofun)
  · rw [inDeclaration_settle]
    obtain h | h := h <;> simp [h]

end Leave

section Walk

theorem samePlace_walkAll_of (h : ∀ d ∈ ds, ∀ s, SamePlace s (r.visitor.walk d s).2) :
    SamePlace s (r.visitor.walkAll ds s).2 := by
  induction ds generalizing s with
  | nil => exact ⟨rfl, rfl⟩
  | cons d ds ih =>
    obtain ⟨hd, hds⟩ := List.forall_mem_cons.1 h
    exact (hd s).trans (ih hds)

/-- A walk over any declaration ends in the place where it began. -/
theorem samePlace_walk (d : Decl) (s : ExtractState) : SamePlace s (r.visitor.walk d s).2 := by
  induction d using Decl.induct_children generalizing s with
  | step d ih =>
    obtain ⟨d', t, u, hentered, hu, hwalk⟩ := exists_walk_eq r d s
    rw [hwalk]
    apply samePlace_leave hentered
    obtain rfl | ⟨body, hbody, rfl⟩ := hu
    · exact ⟨rfl, rfl⟩
    · exact samePlace_walkAll_of (ih body hbody)

theorem samePlace_walkAll : SamePlace s (r.visitor.walkAll ds s).2 :=
  samePlace_walkAll_of fun d _ => samePlace_walk d

theorem walk_top (hs : s.frames = []) : (r.visitor.walk d s).1 = [] := by
  obtain ⟨d', t, u, hentered, hu, hwalk⟩ := exists_walk_eq r d s
  have hplace : SamePlace t u := by
    obtain rfl | ⟨body, -, rfl⟩ := hu
    · exact ⟨rfl, rfl⟩
    · exact samePlace_walkAll
  rw [hwalk]
  apply leave_top
  rw [hplace.frames, hentered.frames, hs]
  rfl

theorem walkAll_top (hs : s.frames = []) : (r.visitor.walkAll ds s).1 = [] := by
  induction ds generalizing s with
  | nil => rfl
  | cons d ds ih =>
    have hnext : (r.visitor.walk d s).2.frames = [] := (samePlace_walk d s).frames.trans hs
    simp only [Visitor.walkAll, walk_top hs, ih hnext, List.append_nil]

theorem inDeclaration_walkAll_of
    (h : ∀ d ∈ ds, ∀ s, s.inDeclaration = false → (r.visitor.walk d s).2.inDeclaration = false)
    (hs : s.inDeclaration = false) : (r.visitor.walkAll ds s).2.inDeclaration = false := by
  induction ds generalizing s with
  | nil => exact hs
  | cons d ds ih =>
    obtain ⟨hd, hds⟩ := List.forall_mem_cons.1 h
    exact ih hds (hd s hs)

/-- A class-like ends what the methods in it start. -/
theorem inDeclaration_walk (d : Decl) (hd : d.hasMethodsInside) (s : ExtractState)
    (hs : s.inDeclaration = false) : (r.visitor.walk d s).2.inDeclaration = false := by
  induction d using Decl.induct_children generalizing s with
  | step d ih =>
    obtain ⟨d', t, u, hentered, hu, hwalk⟩ := exists_walk_eq r d s
    rw [hwalk]
    apply inDeclaration_leave
    rw [hentered.ends]
    cases hends : endsDeclaration d with
    | true => exact .inl rfl
    | false =>
      have hmethod : ∀ h body, d ≠ .method h body := by
        rintro h body rfl
        exact nomatch hd
      have ht : t.inDeclaration = false := (hentered.inDeclaration hends hmethod).trans hs
      obtain rfl | ⟨body, hbody, rfl⟩ := hu
      · exact .inr ht
      · have hinside : ∀ c ∈ body, c.hasMethodsInside := by
          apply Decl.haveMethodsInside_iff.1
          cases d with
          | space | guarded =>
            cases hbody
            exact hd
          | method h inner => exact absurd rfl (hmethod h inner)
          | function | classLike => exact nomatch hends
          | _ => exact nomatch hbody
        exact .inr (inDeclaration_walkAll_of (fun c hc => ih body hbody c hc (hinside c hc)) ht)

end Walk

section Files

theorem visitFile_eq (hs : s.frames = []) : r.visitFile s ds = (r.visitor.walkAll ds s).2 := by
  have hreset : r.visitor.before s = s := by rw [visitor, ← hs]
  rw [visitFile, walkFile, Visitor.traverse_eq, hreset]
  rfl

theorem frames_visitFile (s : ExtractState) (ds : List Decl) : (r.visitFile s ds).frames = [] :=
  samePlace_walkAll.frames

/-- Two files are visited as if they were one. -/
theorem visitFile_append (s : ExtractState) (ds es : List Decl) :
    r.visitFile s (ds ++ es) = r.visitFile (r.visitFile s ds) es := by
  rw [visitFile_eq (frames_visitFile s ds), visitFile, walkFile, Visitor.traverse_eq,
    Visitor.walkAll_append]
  rfl

theorem foldl_visitFile (files : List (List Decl)) (hs : s.frames = []) :
    files.foldl r.visitFile s = (r.visitor.walkAll files.flatten s).2 := by
  induction files generalizing s with
  | nil => rfl
  | cons ds files ih =>
    rw [List.foldl_cons, ih (frames_visitFile s ds), List.flatten_cons, Visitor.walkAll_append,
      visitFile_eq hs]

/-- Whatever the declarations of some files are, behind each file the walk is inside nothing and in
no guard, the next file leaves nothing over, and two files come to the same as one that holds both.
Where methods stand in class-likes only, the walk is behind each file in no declaration that may be
kept. -/
theorem foldl_visitFile_outside (r : Request) (files : List (List Decl)) :
    let s := files.foldl r.visitFile {}
    s.frames = [] ∧ s.inGuard = false ∧ (∀ ds, (r.walkFile ds s).1 = []) ∧
      (∀ ds es, r.visitFile (r.visitFile s ds) es = r.visitFile s (ds ++ es)) ∧
      ((∀ ds ∈ files, Decl.haveMethodsInside ds) → s.inDeclaration = false) := by
  intro s
  have hs : s = (r.visitor.walkAll files.flatten {}).2 := foldl_visitFile files rfl
  have hplace : SamePlace {} s := hs ▸ samePlace_walkAll
  refine ⟨hplace.frames, hplace.inGuard, fun ds => walkAll_top rfl,
    fun ds es => (visitFile_append s ds es).symm, fun hfiles => ?_⟩
  rw [hs]
  refine inDeclaration_walkAll_of (fun d hd => ?_) rfl
  obtain ⟨ds, hds, hd⟩ := List.mem_flatten.1 hd
  exact inDeclaration_walk d (Decl.haveMethodsInside_iff.1 (hfiles ds hds) d hd)

/-- A file with declarations where none belong: a namespace and a class behind a guard, in the class
one more guard, and behind that a method with a function inside. -/
def tangledFile : List Decl :=
  [.guarded "a" [.space (some "N") [.define { name := some "X" }],
    .classLike { kind := .classType, name := some "C" }
      [.guarded "b" [.method { name := "m" } (some [.function { name := "f" } []])]]]]

theorem foldl_visitFile_tangled :
    (∀ ds ∈ [tangledFile, tangledFile], Decl.haveMethodsInside ds) ∧
      let s := [tangledFile, tangledFile].foldl ({} : Request).visitFile {}
      s.frames = [] ∧ s.inGuard = false ∧ (({} : Request).walkFile tangledFile s).1 = [] ∧
        s.inDeclaration = false ∧
        s.found.tally.counts = [(⟨.classes, "\\C"⟩, 2), (⟨.constants, "\\X"⟩, 2)] := by
  have hfiles : ∀ ds ∈ [tangledFile, tangledFile], Decl.haveMethodsInside ds := by decide
  obtain ⟨hframes, hguard, hleft, -, hin⟩ :=
    foldl_visitFile_outside {} [tangledFile, tangledFile]
  exact ⟨hfiles, hframes, hguard, hleft tangledFile, hin hfiles, by decide +kernel⟩

/-- A method outside of class-likes starts a declaration that nothing ends. -/
example : (({} : Request).visitFile {} [.method { name := "m" } none]).inDeclaration = true :=
  rfl

end Files

end Request

end Stubsmith
