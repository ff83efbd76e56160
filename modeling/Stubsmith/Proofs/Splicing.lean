import Stubsmith.Proofs.Rendering

namespace Stubsmith.Syntax

/-- A text of the source between two offsets beside the same text with each reference replaced. Both
are put together from slices that the source has. -/
inductive Spliced (source : String) (stop : Nat) : Nat → List Reference → String → String → Prop where
  | last {start : Nat} {gap : List Char} (hgap : Text.slice? source.toList start stop = some gap) :
    Spliced source stop start [] (String.ofList gap) (String.ofList gap)
  | reference {start : Nat} {ref : Reference} {refs : List Reference} {gap name : List Char}
      {text result : String} (hgap : Text.slice? source.toList start ref.start = some gap)
      (hname : Text.slice? source.toList ref.start ref.stop = some name)
      (rest : Spliced source stop ref.stop refs text result) :
    Spliced source stop start (ref :: refs) (String.ofList gap ++ String.ofList name ++ text)
      (String.ofList gap ++ ref.resolved ++ result)

section

variable {source : String} {start stop : Nat} {refs : List Reference}

theorem Follow.spliced (h : Follow source stop start refs) (hstart : Text.isBoundary source start)
    (hstop : Text.isBoundary source stop) :
    Spliced source stop start refs (Text.slice source start stop)
      (splice source stop start refs) := by
  induction refs generalizing start with
  | nil =>
    have hgap := Text.slice?_of_boundaries hstart hstop h
    rw [splice]
    simpa only [String.ofList_toList] using Spliced.last hgap
  | cons ref refs ih =>
    obtain ⟨hle, hlt, hfirst, hlast, hrest⟩ := id h
    have hgap := Text.slice?_of_boundaries hstart hfirst hle
    have hname := Text.slice?_of_boundaries hfirst hlast hlt.le
    have hwhole : Text.slice source start ref.start ++ Text.slice source ref.start ref.stop ++
        Text.slice source ref.stop stop = Text.slice source start stop := by
      rw [Text.slice_append hstart hfirst hlast hle hlt.le,
        Text.slice_append hstart hlast hstop (hle.trans hlt.le) hrest.le]
    rw [splice_cons h, ← hwhole]
    simpa only [String.ofList_toList] using Spliced.reference hgap hname (ih hrest hlast)

/-- Where each name stands for itself nothing changes. -/
theorem Spliced.eq_of_verbatim {text result : String} (h : Spliced source stop start refs text result)
    (hrefs : ∀ ref ∈ refs, ref.resolved = Text.slice source ref.start ref.stop) : result = text := by
  induction h with
  | last => rfl
  | reference hgap hname rest ih =>
    obtain ⟨href, hrefs⟩ := List.forall_mem_cons.1 hrefs
    rw [href, Text.slice, hname, Option.getD_some, ih hrefs]

end

section

variable (source : String) (scope : Scope)

mutual

/-- A reference is put where its name stands, with what the name resolves to. -/
theorem resolved_of_mem_references (reading : ImportKind) (t : Tree) :
    ∀ ref ∈ references source scope reading t, ∃ kind,
      ref.resolved = resolveAs scope kind (Text.slice source ref.start ref.stop) := by
  match t with
  | .node r cs =>
    unfold references
    split
    · exact List.forall_mem_singleton.2 ⟨reading, rfl⟩
    · exact resolved_of_mem_referencesBelow r.kind cs 0 cs

theorem resolved_of_mem_referencesBelow (kind : String) (siblings : List Tree) (place : Nat)
    (cs : List Tree) :
    ∀ ref ∈ referencesBelow source scope kind siblings place cs, ∃ kind,
      ref.resolved = resolveAs scope kind (Text.slice source ref.start ref.stop) := by
  match cs with
  | [] => exact fun _ h => nomatch h
  | c :: cs =>
    rw [referencesBelow]
    refine List.forall_mem_append.2 ⟨?_, resolved_of_mem_referencesBelow kind siblings _ cs⟩
    split
    · next reading _ => exact resolved_of_mem_references reading c
    · exact fun _ h => nomatch h

end

end

/-- Rendering is an exact splice. The references of a fragment stand inside it and apart from one
another, none is dropped, and beside the source each is replaced by what its name resolves to while
all else stays. So a fragment in which every name stands for itself is rendered as it is written. -/
theorem render_spliced (source : String) (scope : Scope) (t : Tree) (h : t.every (isRanged source)) :
    let refs := references source scope .constant t
    refs.Pairwise (fun a b => a.stop ≤ b.start) ∧
      (∀ ref ∈ refs, t.root.start ≤ ref.start ∧ ref.start < ref.stop ∧ ref.stop ≤ t.root.stop) ∧
      (∀ ref ∈ refs, ∃ kind,
        ref.resolved = resolveAs scope kind (Text.slice source ref.start ref.stop)) ∧
      Spliced source t.root.stop t.root.start refs (t.text source) (render source scope t) ∧
      ((∀ ref ∈ refs, ref.resolved = Text.slice source ref.start ref.stop) →
        render source scope t = t.text source) := by
  intro refs
  have hfollow : Follow source t.root.stop t.root.start refs :=
    follow_references source scope .constant t h
  obtain ⟨-, hstart, hstop⟩ := Tree.root_ranged h
  have hspliced : Spliced source t.root.stop t.root.start refs (t.text source)
      (render source scope t) := by
    rw [render, sortedReferences_eq h]
    exact hfollow.spliced hstart hstop
  exact ⟨hfollow.disjoint, fun ref => hfollow.mem, resolved_of_mem_references source scope .constant t,
    hspliced, hspliced.eq_of_verbatim⟩

section

/-- The fragment `Ä::B + f(B)`, in which one letter takes two bytes. -/
def umlautSum : Tree :=
  .node { kind := "binary_expression", start := 0, stop := 12 }
    [.node { kind := "class_constant_access_expression", field := some "left", start := 0, stop := 5 }
      [.node { kind := "name", start := 0, stop := 2 } [],
        .node { kind := "::", named := false, start := 2, stop := 4 } [],
        .node { kind := "name", start := 4, stop := 5 } []],
    .node { kind := "+", named := false, field := some "operator", start := 6, stop := 7 } [],
    .node { kind := "function_call_expression", field := some "right", start := 8, stop := 12 }
      [.node { kind := "name", field := some "function", start := 8, stop := 9 } [],
        .node { kind := "arguments", field := some "arguments", start := 9, stop := 12 }
          [.node { kind := "(", named := false, start := 9, stop := 10 } [],
            .node { kind := "argument", start := 10, stop := 11 }
              [.node { kind := "name", start := 10, stop := 11 } []],
            .node { kind := ")", named := false, start := 11, stop := 12 } []]]]

theorem render_umlautSum :
    let scope := Scope.add {} .classLike "Lib\\Ä" none
    umlautSum.every (isRanged "Ä::B + f(B)") ∧
      references "Ä::B + f(B)" scope .constant umlautSum =
        [⟨0, 2, "\\Lib\\Ä"⟩, ⟨8, 9, "\\f"⟩, ⟨10, 11, "\\B"⟩] ∧
      Spliced "Ä::B + f(B)" 12 0 [⟨0, 2, "\\Lib\\Ä"⟩, ⟨8, 9, "\\f"⟩, ⟨10, 11, "\\B"⟩]
        "Ä::B + f(B)" "\\Lib\\Ä::B + \\f(\\B)" := by
  intro scope
  have hranged : umlautSum.every (isRanged "Ä::B + f(B)") := by decide
  have hrefs : references "Ä::B + f(B)" scope .constant umlautSum =
      [⟨0, 2, "\\Lib\\Ä"⟩, ⟨8, 9, "\\f"⟩, ⟨10, 11, "\\B"⟩] := by decide
  obtain ⟨-, -, -, hspliced, -⟩ := render_spliced "Ä::B + f(B)" scope umlautSum hranged
  have hrender : render "Ä::B + f(B)" scope umlautSum = "\\Lib\\Ä::B + \\f(\\B)" := by
    rw [render, sortedReferences_eq hranged, hrefs]
    decide
  rw [hrender, hrefs] at hspliced
  exact ⟨hranged, hrefs, hspliced⟩

end

end Stubsmith.Syntax
