import Stubsmith.Stubs.Generate

namespace Stubsmith

namespace Source

variable {τ : Type} (parse : τ → Except ParseError (List Decl))

/-- Why a source has no declarations: the error of reading it, or else that of parsing it. -/
def fault? (s : Source τ) : Option String :=
  match s.contents with
  | .error reason => some reason
  | .ok text =>
    match parse text with
    | .error e => some e.reason
    | .ok _ => none

/-- The declarations of the sources that have any, in order. -/
def readable (sources : List (Source τ)) : List (List Decl) :=
  sources.filterMap fun s => (s.declarations parse).toOption

/-- The reports on the sources without declarations, in order. -/
def unreadable (sources : List (Source τ)) : List Unparsed :=
  sources.filterMap fun s => (s.fault? parse).map (⟨s.path, ·⟩)

variable {parse} {s : Source τ}

theorem fault?_eq_none_iff : s.fault? parse = none ↔ ∃ ds, s.declarations parse = .ok ds := by
  rw [fault?, declarations]
  cases s.contents with
  | error reason => simp
  | ok text =>
    dsimp only
    cases parse text <;> simp

theorem fault?_eq_some_iff {reason : String} :
    s.fault? parse = some reason ↔ s.declarations parse = .error reason := by
  rw [fault?, declarations]
  cases s.contents with
  | error reason => simp
  | ok text =>
    dsimp only
    cases parse text <;> simp

/-- Sources without declarations can be left out. -/
theorem readable_filter (sources : List (Source τ)) :
    readable parse (sources.filter fun s => (s.fault? parse).isNone) = readable parse sources := by
  rw [readable, List.filterMap_filter, readable]
  refine congrArg (List.filterMap · sources) (funext fun s => ?_)
  cases hfault : s.fault? parse with
  | none => rfl
  | some reason =>
    rw [fault?_eq_some_iff.1 hfault]
    rfl

theorem unreadable_filter (sources : List (Source τ)) :
    unreadable parse (sources.filter fun s => (s.fault? parse).isNone) = [] := by
  rw [unreadable, List.filterMap_filter, List.filterMap_eq_nil_iff]
  intro s _
  cases hfault : s.fault? parse <;> simp

end Source

namespace Request

variable {τ : Type} {r : Request} {parse : τ → Except ParseError (List Decl)}

/-- A source that cannot be used leaves the state of the walk as it is. -/
theorem takeSource_of_fault {p : Progress} {s : Source τ} {reason : String}
    (h : s.fault? parse = some reason) :
    r.takeSource parse p s = ⟨p.state, p.unparsed ++ [⟨s.path, reason⟩]⟩ := by
  rw [takeSource, Source.fault?_eq_some_iff.1 h]

theorem takeSource_of_declarations {p : Progress} {s : Source τ} {ds : List Decl}
    (h : s.declarations parse = .ok ds) :
    r.takeSource parse p s = ⟨r.visitFile p.state ds, p.unparsed⟩ := by
  rw [takeSource, h]

/-- A run walks over the declarations that there are, and reports the other sources, wherever they
stand. -/
theorem foldl_takeSource (sources : List (Source τ)) (p : Progress) :
    sources.foldl (r.takeSource parse) p =
      ⟨(Source.readable parse sources).foldl r.visitFile p.state,
        p.unparsed ++ Source.unreadable parse sources⟩ := by
  induction sources generalizing p with
  | nil => simp [Source.readable, Source.unreadable]
  | cons s sources ih =>
    rw [List.foldl_cons, ih]
    cases hfault : s.fault? parse with
    | none =>
      obtain ⟨ds, hds⟩ := Source.fault?_eq_none_iff.1 hfault
      rw [takeSource_of_declarations hds]
      simp [Source.readable, Source.unreadable, hfault, hds, Except.toOption]
    | some reason =>
      rw [takeSource_of_fault hfault]
      simp [Source.readable, Source.unreadable, hfault, Source.fault?_eq_some_iff.1 hfault,
        Except.toOption]

theorem generate_eq (sources : List (Source τ)) :
    r.generate parse sources =
      (r.extract (Source.readable parse sources)).result (Source.unreadable parse sources) := by
  rw [generate, foldl_takeSource, extract]
  rfl

/-- Of sources that cannot be read or parsed nothing is left but a report, whatever they stand
between: what else a run gives is what it gives for the other sources alone. -/
theorem generate_isolated (r : Request) (parse : τ → Except ParseError (List Decl))
    (sources : List (Source τ)) :
    let all := r.generate parse sources
    let alone := r.generate parse (sources.filter fun s => (s.fault? parse).isNone)
    all.statements = alone.statements ∧ all.stats = alone.stats ∧
      all.duplicates = alone.duplicates ∧ alone.unparsed = [] ∧
      all.unparsed = sources.filterMap fun s => (s.fault? parse).map (⟨s.path, ·⟩) := by
  intro all alone
  have hall : all = _ := generate_eq sources
  have halone : alone = (r.extract (Source.readable parse sources)).result [] := by
    rw [← Source.readable_filter, ← Source.unreadable_filter sources]
    exact generate_eq _
  rw [hall, halone]
  exact ⟨rfl, rfl, rfl, rfl, rfl⟩

end Request

end Stubsmith
