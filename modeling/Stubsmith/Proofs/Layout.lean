import Stubsmith.Decl.Print

namespace Stubsmith

open Text

namespace Text

/-- A line of text at a depth. An empty one has no margin. -/
def setAt (depth : Nat) (line : String) : String :=
  if line = "" then "" else Line.margin depth ++ line

theorem Line.render_eq_setAt (l : Line) : l.render = setAt l.depth l.text ++ "\n" := by
  rw [render, setAt]
  split <;> rfl

theorem margin_add (a b : Nat) : Line.margin (a + b) = Line.margin a ++ Line.margin b := by
  rw [Line.margin, Line.margin, Line.margin, ← String.ofList_append, List.replicate_append_replicate,
    Nat.mul_add]

theorem setAt_setAt (steps depth : Nat) (line : String) :
    setAt steps (setAt depth line) = setAt (steps + depth) line := by
  by_cases h : line = ""
  · simp [setAt, h]
  · simp [setAt, h, margin_add, String.append_assoc]

end Text

namespace Decl

/-- What stands above a declaration: its doc comment, then its attributes. -/
def preamble (d : Decl) : List Line :=
  (((d.doc?.map docLines).getD []) ++ d.attributes).map fun text => ⟨0, text⟩

/-- Lines behind a heading that ends with the opening brace. -/
def headed (heading : String) (body : List Line) : List Line :=
  ⟨0, heading ++ " \x7b"⟩ :: (indented body ++ [⟨0, "\x7d"⟩])

/-- Lines below a heading, between braces that stand on lines of their own. -/
def braced (heading : String) (body : List Line) : List Line :=
  ⟨0, heading⟩ :: ⟨0, "\x7b"⟩ :: (indented body ++ [⟨0, "\x7d"⟩])

mutual

/-- A declaration below its preamble. -/
def core : Decl → List Line
  | .space (some name) body => headed ("namespace " ++ name) (layoutAll body)
  | .space none body => headed "namespace" (layoutAll body)
  | .function h body => braced h.written (layoutAll body)
  | .classLike h body => braced h.written (layoutAll body)
  | .method h (some body) => braced h.written (layoutAll body)
  | .method h none => [⟨0, h.written ++ ";"⟩]
  | .property p => [⟨0, p.written⟩]
  | .classConst c => [⟨0, c.written⟩]
  | .traitUse u => [⟨0, u.written⟩]
  | .enumCase c => [⟨0, c.written⟩]
  | .const c => [⟨0, c.written⟩]
  | .define d => [⟨0, d.written⟩]
  | .assign a => [⟨0, a.written⟩]
  | .guarded condition body => headed ("if (" ++ condition ++ ")") (layoutAll body)
  | .verbatim text _ => [⟨0, text⟩]

/-- Declarations one below the other, with a blank line between each two. -/
def layoutAll : List Decl → List Line
  | [] => []
  | [d] => d.preamble ++ core d
  | d :: ds => d.preamble ++ core d ++ Line.blank :: layoutAll ds

end

theorem layoutAll_cons (d : Decl) {ds : List Decl} (h : ds ≠ []) :
    layoutAll (d :: ds) = d.preamble ++ core d ++ Line.blank :: layoutAll ds := by
  rw [layoutAll]
  exact h

theorem layoutAll_append {ds es : List Decl} (hds : ds ≠ []) (hes : es ≠ []) :
    layoutAll (ds ++ es) = layoutAll ds ++ Line.blank :: layoutAll es := by
  induction ds with
  | nil => exact absurd rfl hds
  | cons d ds ih =>
    rw [List.cons_append, layoutAll_cons d (List.append_ne_nil_of_right_ne_nil ds hes)]
    by_cases h : ds = []
    · rw [h, List.nil_append, layoutAll]
    · rw [ih h, layoutAll_cons d h, List.append_assoc, List.append_assoc, List.cons_append,
        List.append_assoc]

end Decl

namespace Printer

/-- Adds lines whose depths are counted from that of the printer. -/
def write (ls : List Line) (p : Printer) : Printer :=
  { p with out := p.out ++ renderLines (ls.map (Line.deepen p.depth)) }

/-- Something that a printer does adds these lines, and nothing else is changed. -/
def Writes (f : Printer → Printer) (ls : List Line) : Prop :=
  ∀ p, f p = p.write ls

variable {f g : Printer → Printer} {ls ms : List Line}

theorem writes_addLine (text : String) : Writes (addLine text) [⟨0, text⟩] := by
  intro p
  simp [addLine, write, renderLines, Line.deepen]

theorem write_write (p : Printer) (ls ms : List Line) :
    (p.write ls).write ms = p.write (ls ++ ms) := by
  simp [write, renderLines, String.append_assoc]

theorem Writes.after (hg : Writes g ms) (hf : Writes f ls) :
    Writes (fun p => g (f p)) (ls ++ ms) := by
  intro p
  show g (f p) = p.write (ls ++ ms)
  rw [hf, hg, write_write]

theorem Writes.indented (h : Writes f ls) : Writes (indented f) (Text.indented ls) := by
  intro p
  have hdeeper : (Text.indented ls).map (Line.deepen p.depth) =
      ls.map (Line.deepen (p.depth + 1)) := by
    simp [Text.indented, Function.comp_def, Line.deepen, Nat.add_comm, Nat.add_left_comm]
  simp [Printer.indented, h _, write, hdeeper]

theorem Writes.headed (heading : String) (h : Writes f ls) :
    Writes (headed heading f) (Decl.headed heading ls) :=
  (writes_addLine "\x7d").after (h.indented.after (writes_addLine (heading ++ " \x7b")))

theorem Writes.braced (heading : String) (h : Writes f ls) :
    Writes (braced heading f) (Decl.braced heading ls) :=
  have hbody := h.indented.after (writes_addLine "\x7b")
  (writes_addLine "\x7d").after (hbody.after (writes_addLine heading))

theorem writes_addLines (texts : List String) :
    Writes (addLines texts) (texts.map fun text => ⟨0, text⟩) := by
  induction texts with
  | nil => exact fun p => by simp [addLines, write, renderLines]
  | cons text texts ih => exact ih.after (writes_addLine text)

theorem writes_doc (comment : Option String) :
    Writes (doc comment) (((comment.map docLines).getD []).map fun text => ⟨0, text⟩) := by
  cases comment with
  | none => exact writes_addLines []
  | some text => exact writes_addLines (docLines text)

theorem writes_preamble (d : Decl) : Writes (preamble d) d.preamble := by
  rw [Decl.preamble, List.map_append]
  exact (writes_addLines d.attributes).after (writes_doc d.doc?)

mutual

theorem writes_core : ∀ d : Decl, Writes (core d) d.core
  | .space (some name) body => (writes_declarations body).headed ("namespace " ++ name)
  | .space none body => (writes_declarations body).headed "namespace"
  | .function h body => (writes_declarations body).braced h.written
  | .classLike h body => (writes_declarations body).braced h.written
  | .method h (some body) => (writes_declarations body).braced h.written
  | .method h none => writes_addLine (h.written ++ ";")
  | .property p => writes_addLine p.written
  | .classConst c => writes_addLine c.written
  | .traitUse u => writes_addLine u.written
  | .enumCase c => writes_addLine c.written
  | .const c => writes_addLine c.written
  | .define d => writes_addLine d.written
  | .assign a => writes_addLine a.written
  | .guarded condition body => (writes_declarations body).headed ("if (" ++ condition ++ ")")
  | .verbatim text _ => writes_addLine text

theorem writes_declarations : ∀ ds : List Decl, Writes (declarations ds) (Decl.layoutAll ds)
  | [] => writes_addLines []
  | [d] => (writes_core d).after (writes_preamble d)
  | d :: e :: ds => by
    have hfirst := (writes_core d).after (writes_preamble d)
    have hrest := (writes_declarations (e :: ds)).after ((writes_addLine "").after hfirst)
    rwa [List.append_assoc] at hrest

end

end Printer

end Stubsmith
