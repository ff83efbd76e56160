import Stubsmith.Proofs.OneLine

namespace Stubsmith

open Text

namespace Text

/-- A text with the margin of some steps before each of its lines, but for the empty ones. -/
def indentBy (steps : Nat) (s : String) : String :=
  String.intercalate "\n" ((s.toList.splitOn '\n').map fun line => setAt steps (String.ofList line))

theorem indentBy_line {line : String} (h : OneLine line) (steps : Nat) (rest : String) :
    indentBy steps (line ++ "\n" ++ rest) = setAt steps line ++ "\n" ++ indentBy steps rest := by
  have hsplit : (line ++ "\n" ++ rest).toList.splitOn '\n' =
      line.toList :: rest.toList.splitOn '\n' := by
    rw [String.toList_append, String.toList_append, List.append_assoc]
    exact splitOn_piece h rest.toList
  rw [indentBy, hsplit, List.map_cons, String.intercalate_cons_of_ne_nil, indentBy,
    String.ofList_toList]
  simp

theorem indentBy_render {l : Line} (h : OneLine l.text) (steps : Nat) (rest : String) :
    indentBy steps (l.render ++ rest) = (l.deepen steps).render ++ indentBy steps rest := by
  rw [Line.render_eq_setAt, indentBy_line (oneLine_setAt h l.depth), setAt_setAt,
    Line.render_eq_setAt, Line.deepen, Nat.add_comm]

theorem indentBy_renderLines {ls : List Line} (h : Decl.Plain ls) (steps : Nat) :
    indentBy steps (renderLines ls) = renderLines (ls.map (Line.deepen steps)) := by
  induction ls with
  | nil => rfl
  | cons l ls ih =>
    obtain ⟨hl, hls⟩ := List.forall_mem_cons.1 h
    have hfirst (l : Line) (ls : List Line) :
        renderLines (l :: ls) = l.render ++ renderLines ls := by simp [renderLines]
    rw [hfirst, indentBy_render hl, ih hls, List.map_cons, hfirst]

end Text

namespace Decl

/-- The text of declarations at a depth. -/
def printAt (depth : Nat) (ds : List Decl) : String :=
  (({ depth } : Printer).declarations ds).out

theorem printAt_eq (depth : Nat) (ds : List Decl) :
    printAt depth ds = renderLines ((layoutAll ds).map (Line.deepen depth)) := by
  rw [printAt, Printer.writes_declarations ds]
  simp [Printer.write]

theorem declarations_eq (ds : List Decl) (p : Printer) :
    p.declarations ds = { p with out := p.out ++ printAt p.depth ds } := by
  rw [Printer.writes_declarations ds, printAt_eq, Printer.write]

/-- A print of two lists is their prints with a blank line in between. -/
theorem printAt_append {ds es : List Decl} (hds : ds ≠ []) (hes : es ≠ []) (depth : Nat) :
    printAt depth (ds ++ es) = printAt depth ds ++ "\n" ++ printAt depth es := by
  have hblank : (Line.blank.deepen depth).render = "\n" := rfl
  rw [printAt_eq, layoutAll_append hds hes]
  simp [renderLines, hblank, printAt_eq, String.append_assoc]

/-- The line that opens a namespace. -/
def spaceLine : Option String → String
  | some name => "namespace " ++ name ++ " \x7b"
  | none => "namespace \x7b"

theorem layoutAll_space (name : Option String) (ds : List Decl) :
    layoutAll [.space name ds] =
      ⟨0, spaceLine name⟩ :: (indented (layoutAll ds) ++ [⟨0, "\x7d"⟩]) := by
  cases name <;> rfl

theorem printFile_of_ne_nil {ds : List Decl} (h : ds ≠ []) :
    printFile none ds = "<?php\n\n" ++ printAt 0 ds := by
  have hopened : (({} : Printer).addLine "<?php").addLine "" = { out := "<?php\n\n" } := rfl
  have hfilled : ds.isEmpty = false := by simpa using h
  simp only [printFile, hfilled, Option.map_none, Option.filter_none, hopened]
  rw [declarations_eq]
  rfl

section

variable {ds : List Decl} (h : OneLines (fragmentsAll ds))
include h

theorem printAt_add (depth steps : Nat) :
    printAt (depth + steps) ds = indentBy steps (printAt depth ds) := by
  have hdeeper : Plain ((layoutAll ds).map (Line.deepen depth)) :=
    List.forall_mem_map.2 (plain_layoutAll ds h)
  rw [printAt_eq, printAt_eq, indentBy_renderLines hdeeper, List.map_map]
  congr 2
  funext l
  simp [Line.deepen, Nat.add_assoc]

theorem printFile_space (name : Option String) :
    printFile none [.space name ds] =
      "<?php\n\n" ++ spaceLine name ++ "\n" ++ indentBy 1 (printAt 0 ds) ++ "\x7d\n" := by
  have hinside : renderLines (indented (layoutAll ds)) = indentBy 1 (printAt 0 ds) := by
    rw [← printAt_add h, printAt_eq, indented]
  have hopen : Line.render ⟨0, spaceLine name⟩ = spaceLine name ++ "\n" := by
    cases name <;> simp [Line.render, Line.margin, spaceLine]
  have hclose : Line.render ⟨0, "\x7d"⟩ = "\x7d\n" := rfl
  have hzero : Line.deepen 0 = id := rfl
  rw [printFile_of_ne_nil (by simp), printAt_eq, layoutAll_space, hzero, List.map_id, ← hinside]
  simp [renderLines, hopen, hclose, String.append_assoc]

/-- A printer adds a text to what it has written and ends at the depth at which it started. At a
greater depth the text has more margin before each line that is not empty. So a namespace is its
opening line, what it holds one step deeper, and its closing brace; and two lists of declarations
are written with a blank line in between. -/
theorem print_compositional :
    (∀ p : Printer, p.declarations ds = { p with out := p.out ++ printAt p.depth ds }) ∧
      (∀ depth steps, printAt (depth + steps) ds = indentBy steps (printAt depth ds)) ∧
      (∀ name, printFile none [.space name ds] =
        "<?php\n\n" ++ spaceLine name ++ "\n" ++ indentBy 1 (printAt 0 ds) ++ "\x7d\n") ∧
      ∀ es depth, ds ≠ [] → es ≠ [] →
        printAt depth (ds ++ es) = printAt depth ds ++ "\n" ++ printAt depth es :=
  ⟨declarations_eq ds, printAt_add h, printFile_space h, fun _ depth hds hes =>
    printAt_append hds hes depth⟩

end

/-- A class with a comment on several lines, one of them empty, and text that is empty. -/
def commentedClass : List Decl :=
  [.classLike { kind := .classType, doc := some "/**\n      * C.\n\n */", name := some "C" }
      [.method { modifiers := { isPublic := true }, name := "m" } none], .verbatim "" true]

theorem print_commentedClass :
    OneLines (fragmentsAll commentedClass) ∧
      printFile none [.space (some "N") commentedClass] =
        "<?php\n\nnamespace N \x7b\n    /**\n     * C.\n\n     */\n    class C\n    \x7b\n" ++
          "        public function m();\n    \x7d\n\n\n\x7d\n" := by
  have hlines : OneLines (fragmentsAll commentedClass) := by
    show ∀ f ∈ fragmentsAll commentedClass, OneLine f
    decide
  have hprint : printAt 0 commentedClass =
      "/**\n * C.\n\n */\nclass C\n\x7b\n    public function m();\n\x7d\n\n\n" := by
    decide
  obtain ⟨-, -, hspace, -⟩ := print_compositional hlines
  refine ⟨hlines, ?_⟩
  rw [hspace, hprint]
  decide

end Decl

end Stubsmith
