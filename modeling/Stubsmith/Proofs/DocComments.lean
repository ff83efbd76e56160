import Stubsmith.Proofs.OneLine

namespace Stubsmith

open Text

section

theorem isBlank_of_mem_space : ∀ c ∈ " ".toList, isBlank c := by
  have hspace : isBlank ' ' := by decide
  simp [hspace]

theorem solid_opening : ∀ c ∈ "/**".toList, isBlank c = false := by
  have hslash : isBlank '/' = false := by decide
  have hstar : isBlank '*' = false := by decide
  simp [hslash, hstar]

theorem solid_closing : ∀ c ∈ "*/".toList, isBlank c = false := by
  have hslash : isBlank '/' = false := by decide
  have hstar : isBlank '*' = false := by decide
  simp [hslash, hstar]

variable {s t : String}

theorem trim_trim (s : String) : trim (trim s) = trim s := by
  simp only [trim, String.toList_ofList, stripBoth_stripBoth]

theorem trim_append (h : ∀ c ∈ s.toList, isBlank c) (t : String) : trim (s ++ t) = trim t := by
  rw [trim, trim, String.toList_append, stripBoth_append h]

theorem prefix_trim {lead : List Char} (hlead : ∀ c ∈ lead, isBlank c = false)
    (h : lead <+: s.toList) : lead <+: (trim s).toList := by
  rw [trim, String.toList_ofList]
  exact prefix_stripBoth hlead h

theorem suffix_trim {tail : List Char} (htail : ∀ c ∈ tail, isBlank c = false)
    (h : tail <:+ s.toList) : tail <:+ (trim s).toList := by
  rw [trim, String.toList_ofList]
  exact suffix_stripBoth htail h

/-- A line of which `trim` takes nothing off the end. -/
def EndsBare (s : String) : Prop :=
  ∀ c ∈ s.toList.getLast?, isBlank c = false

theorem endsBare_trim (s : String) : EndsBare (trim s) := by
  intro c hc
  rw [trim, String.toList_ofList, stripBoth_eq] at hc
  obtain ⟨hne, rfl⟩ := List.mem_getLast?_eq_getLast hc
  simpa using List.rdropWhile_last_not isBlank (s.toList.dropWhile isBlank) hne

theorem EndsBare.append (h : EndsBare t) (hne : t ≠ "") (s : String) : EndsBare (s ++ t) := by
  have hlast : (s ++ t).toList.getLast? = t.toList.getLast? := by
    rw [String.toList_append, List.getLast?_append_of_ne_nil]
    simpa using hne
  rwa [EndsBare, hlast]

theorem EndsBare.getLast?_ne (h : EndsBare s) : s.toList.getLast? ≠ some '\r' :=
  fun hreturn => absurd (h '\r' hreturn) (by decide)

end

section

variable {s t : String}

theorem docLine_congr (h : trim s = trim t) : docLine s = docLine t := by
  rw [docLine, docLine, h]

theorem trim_docLine (s : String) : trim (docLine s) = trim s := by
  rw [docLine]
  split
  · rw [trim_append isBlank_of_mem_space, trim_trim]
  · exact trim_trim s

theorem suffix_docLine {tail : List Char} (htail : ∀ c ∈ tail, isBlank c = false)
    (h : tail <:+ s.toList) : tail <:+ (docLine s).toList := by
  have hbare := suffix_trim htail h
  rw [docLine]
  split
  · rw [String.toList_append]
    exact hbare.trans (List.suffix_append " ".toList (trim s).toList)
  · exact hbare

theorem endsBare_docLine (s : String) : EndsBare (docLine s) := by
  rw [docLine]
  split
  · next hstar =>
    have hne : trim s ≠ "" := by
      intro hempty
      rw [hempty] at hstar
      exact absurd hstar (by decide)
    exact (endsBare_trim s).append hne " "
  · exact endsBare_trim s

theorem isBlank_of_mem_margin {depth : Nat} {c : Char} (h : c ∈ (Line.margin depth).toList) :
    isBlank c := by
  rw [Line.margin, String.toList_ofList] at h
  rw [List.eq_of_mem_replicate h]
  decide

theorem trim_setAt (depth : Nat) (line : String) : trim (setAt depth line) = trim line := by
  rw [setAt]
  split
  · next hempty => rw [hempty]
  · exact trim_append (fun _ => isBlank_of_mem_margin) line

theorem suffix_setAt {tail : List Char} {line : String} (depth : Nat) (hne : line ≠ "")
    (h : tail <:+ line.toList) : tail <:+ (setAt depth line).toList := by
  rw [setAt, if_neg hne, String.toList_append]
  exact h.trans (List.suffix_append (Line.margin depth).toList line.toList)

theorem endsBare_setAt {line : String} (h : EndsBare line) (depth : Nat) :
    EndsBare (setAt depth line) := by
  rw [setAt]
  split
  · next hempty => rwa [hempty] at h
  · next hne => exact h.append hne (Line.margin depth)

/-- A line that was written at some depth is written again as it was. -/
theorem docLine_setAt (depth : Nat) (line : String) :
    docLine (setAt depth (docLine line)) = docLine line :=
  docLine_congr ((trim_setAt depth (docLine line)).trans (trim_docLine line))

end

/-- A comment between the marks of a doc comment. -/
structure IsDocComment (doc : String) : Prop where
  opens : "/**".toList <+: doc.toList
  closes : "*/".toList <:+ doc.toList

/-- Lines that are those of a doc comment: the first and the last one have its marks. -/
structure Framed (ls : List String) : Prop where
  opens : ∃ first ∈ ls.head?, "/**".toList <+: first.toList
  closes : ∃ last ∈ ls.getLast?, "*/".toList <:+ last.toList

section

variable {doc first : String} {ls rest : List String}

theorem not_framed_nil : ¬Framed [] := by
  intro h
  obtain ⟨_, hfirst, -⟩ := h.opens
  cases hfirst

theorem Framed.first_ne (h : Framed (first :: rest)) : first ≠ "" := by
  rintro rfl
  obtain ⟨_, hfirst, hopens⟩ := h.opens
  cases hfirst
  exact absurd hopens (by decide)

/-- Lines keep the marks where the first one and the others are changed but for them. -/
theorem Framed.map {f g : String → String} (h : Framed (first :: rest))
    (hopens : ∀ s, "/**".toList <+: s.toList → "/**".toList <+: (f s).toList)
    (hfirst : ∀ s, "*/".toList <:+ s.toList → "*/".toList <:+ (f s).toList)
    (hrest : ∀ s, "*/".toList <:+ s.toList → "*/".toList <:+ (g s).toList) :
    Framed (f first :: rest.map g) := by
  obtain ⟨⟨_, hhead, hopen⟩, last, hlast, hclose⟩ := h
  cases hhead
  refine ⟨⟨f first, rfl, hopens first hopen⟩, ?_⟩
  rw [List.getLast?_cons] at hlast ⊢
  rw [List.getLast?_map]
  cases hend : rest.getLast? with
  | none =>
    rw [hend] at hlast
    cases hlast
    exact ⟨f first, rfl, hfirst first hclose⟩
  | some line =>
    rw [hend] at hlast
    cases hlast
    exact ⟨g line, rfl, hrest line hclose⟩

theorem framed_lines (h : IsDocComment doc) : Framed (lines doc) := by
  obtain ⟨piece, rest, hfront, hopens⟩ := splitOn_of_prefix (by decide : '\n' ∉ _) h.opens
  obtain ⟨pieces, last, hback, hcloses⟩ := splitOn_of_suffix (by decide : '\n' ∉ _) h.closes
  have hne : last ≠ [] := by
    rintro rfl
    exact absurd hcloses (by decide)
  have hlines : lines doc = (pieces.map endLine ++ [last]).map String.ofList := by
    rw [lines, splitOn_eq, hback, linesFrom_concat hne]
  rw [hlines]
  constructor
  · -- The first piece loses a carriage return unless it is the last one as well.
    cases pieces with
    | nil =>
      obtain ⟨rfl, -⟩ := List.cons.inj (hback.symm.trans hfront)
      exact ⟨String.ofList last, rfl, by simpa using hopens⟩
    | cons other pieces =>
      obtain ⟨rfl, -⟩ := List.cons.inj (hback.symm.trans hfront)
      have hkept : "/**".toList <+: endLine other := prefix_endLine (by decide) hopens
      exact ⟨String.ofList (endLine other), rfl, by simpa using hkept⟩
  · exact ⟨String.ofList last, by simp, by simpa using hcloses⟩

theorem framed_docLines (h : IsDocComment doc) : Framed (docLines doc) := by
  have hlines := framed_lines h
  rw [docLines]
  split
  · next hnone =>
    rw [hnone] at hlines
    exact absurd hlines not_framed_nil
  · next first rest hsome =>
    rw [hsome] at hlines
    exact hlines.map (fun _ => prefix_trim solid_opening) (fun _ => suffix_trim solid_closing)
      fun _ => suffix_docLine solid_closing

theorem isDocComment_intercalate (h : Framed ls) : IsDocComment (String.intercalate "\n" ls) := by
  obtain ⟨⟨first, hfirst, hopens⟩, last, hlast, hcloses⟩ := h
  constructor
  · obtain ⟨rest, rfl⟩ := List.head?_eq_some_iff.1 hfirst
    cases rest with
    | nil => simpa using hopens
    | cons next rest =>
      rw [String.intercalate_cons_cons, String.toList_append, String.toList_append,
        List.append_assoc]
      exact hopens.trans (List.prefix_append _ _)
  · obtain ⟨front, rfl⟩ := List.getLast?_eq_some_iff.1 hlast
    by_cases hfront : front = []
    · simpa [hfront] using hcloses
    · have hend : "*/".toList <:+ (String.intercalate "\n" [last]).toList := by
        simpa using hcloses
      rw [String.intercalate_append_of_ne_nil hfront (by simp), String.toList_append]
      exact hend.trans (List.suffix_append _ _)

end

/-- Lines of a comment as they stand in a text at a depth, but for the margin of the first one. -/
def setBelow (depth : Nat) : List String → List String
  | [] => []
  | first :: rest => first :: rest.map (setAt depth)

/-- A doc comment as it is read again where it was printed at a depth. -/
def docAt (depth : Nat) (doc : String) : String :=
  String.intercalate "\n" (setBelow depth (docLines doc))

section

variable {doc : String} {ls : List String}

/-- Lines that are each ended by a line feed. -/
theorem join_ended (h : ls ≠ []) :
    String.join (ls.map (· ++ "\n")) = String.intercalate "\n" ls ++ "\n" := by
  induction ls with
  | nil => exact absurd rfl h
  | cons l ls ih =>
    cases ls with
    | nil => simp
    | cons next ls =>
      rw [List.map_cons, String.join_cons, ih (by simp), String.intercalate_cons_cons]
      simp only [String.append_assoc]

theorem doc_out (h : IsDocComment doc) (depth : Nat) :
    (({ depth } : Printer).doc (some doc)).out = Line.margin depth ++ docAt depth doc ++ "\n" := by
  have hframed := framed_docLines h
  have hset (ls : List String) :
      (({ depth } : Printer).addLines ls).out =
        String.join ((ls.map (setAt depth)).map (· ++ "\n")) := by
    rw [Printer.writes_addLines ls]
    simp [Printer.write, renderLines, Line.deepen, Function.comp_def, Line.render_eq_setAt]
  rw [docAt, Printer.doc, hset]
  cases hlines : docLines doc with
  | nil =>
    rw [hlines] at hframed
    exact absurd hframed not_framed_nil
  | cons first rest =>
    rw [hlines] at hframed
    rw [join_ended (by simp), List.map_cons, setAt, if_neg hframed.first_ne, setBelow,
      String.intercalate_cons_append]

theorem endsBare_docLines (doc : String) : ∀ l ∈ docLines doc, EndsBare l := by
  rw [docLines]
  cases lines doc with
  | nil => exact List.forall_mem_nil _
  | cons first rest =>
    have hrest : ∀ l ∈ rest.map docLine, EndsBare l :=
      List.forall_mem_map.2 fun line _ => endsBare_docLine line
    exact List.forall_mem_cons.2 ⟨endsBare_trim first, hrest⟩

/-- What holds of lines and is kept at the depth holds of the lines that are set. -/
theorem forall_mem_setBelow {P : String → Prop} {depth : Nat} (h : ∀ l ∈ ls, P l)
    (hset : ∀ l, P l → P (setAt depth l)) : ∀ l ∈ setBelow depth ls, P l := by
  cases ls with
  | nil => exact h
  | cons first rest =>
    obtain ⟨hfirst, hrest⟩ := List.forall_mem_cons.1 h
    have hbelow : ∀ l ∈ rest.map (setAt depth), P l :=
      List.forall_mem_map.2 fun l hl => hset l (hrest l hl)
    exact List.forall_mem_cons.2 ⟨hfirst, hbelow⟩

theorem framed_setBelow (h : IsDocComment doc) (depth : Nat) :
    Framed (setBelow depth (docLines doc)) := by
  have hframed := framed_docLines h
  cases hlines : docLines doc with
  | nil => rwa [hlines] at hframed
  | cons first rest =>
    rw [hlines] at hframed
    have hne {s : String} (hs : "*/".toList <:+ s.toList) : s ≠ "" := by
      rintro rfl
      exact absurd hs (by decide)
    exact hframed.map (fun _ => id) (fun _ => id) fun _ hs => suffix_setAt depth (hne hs) hs

/-- A comment is cut into the lines that were printed. -/
theorem lines_docAt (h : IsDocComment doc) (depth : Nat) :
    lines (docAt depth doc) = setBelow depth (docLines doc) := by
  have hlines : ∀ l ∈ setBelow depth (docLines doc), OneLine l :=
    forall_mem_setBelow (oneLines_docLines doc) fun _ hl => oneLine_setAt hl depth
  -- A carriage return at the end of a line would be lost with the line feed behind it.
  have hends : ∀ l ∈ setBelow depth (docLines doc), EndsBare l :=
    forall_mem_setBelow (endsBare_docLines doc) fun _ hl => endsBare_setAt hl depth
  obtain ⟨last, hlast, hcloses⟩ := (framed_setBelow h depth).closes
  obtain ⟨front, hsplit⟩ := List.getLast?_eq_some_iff.1 hlast
  have hne : last ≠ "" := by
    rintro rfl
    exact absurd hcloses (by decide)
  rw [docAt, hsplit]
  rw [hsplit] at hlines hends
  exact lines_intercalate hne hlines fun l hl =>
    (hends l (List.mem_append_left [last] hl)).getLast?_ne

theorem docLines_docAt (h : IsDocComment doc) (depth : Nat) :
    docLines (docAt depth doc) = docLines doc := by
  have hagain : docLine ∘ setAt depth ∘ docLine = docLine := by
    funext line
    rw [Function.comp_apply, Function.comp_apply, docLine_setAt]
  rw [docLines, lines_docAt h, docLines]
  cases lines doc with
  | nil => rfl
  | cons first rest => simp only [setBelow, trim_trim, List.map_map, hagain]

theorem isDocComment_docAt (h : IsDocComment doc) (depth : Nat) :
    IsDocComment (docAt depth doc) :=
  isDocComment_intercalate (framed_setBelow h depth)

/-- A comment keeps its lines where it is printed and read again at one depth after the other. -/
theorem docLines_foldl_docAt (h : IsDocComment doc) (depths : List Nat) :
    docLines (depths.foldl (fun doc depth => docAt depth doc) doc) = docLines doc := by
  induction depths generalizing doc with
  | nil => rfl
  | cons depth depths ih =>
    rw [List.foldl_cons, ih (isDocComment_docAt h depth), docLines_docAt h]

/-- What a printer writes for a doc comment is the margin, a doc comment and a line feed. The
comment that is written has the lines of the one that was given, and any printer writes it in the
same way. -/
theorem doc_reprinted (h : IsDocComment doc) (depth : Nat) :
    ∃ again, (({ depth } : Printer).doc (some doc)).out = Line.margin depth ++ again ++ "\n" ∧
      IsDocComment again ∧ docLines again = docLines doc ∧
        ∀ p : Printer, p.doc (some again) = p.doc (some doc) := by
  have hlines := docLines_docAt h depth
  refine ⟨docAt depth doc, doc_out h depth, isDocComment_docAt h depth, hlines, fun p => ?_⟩
  rw [Printer.doc, Printer.doc, hlines]

end

/-- A comment with blanks of several kinds around its lines, an empty line and one without a star.
-/
def roughComment : String :=
  "/** C. \t\r\n\n\t\u2003* a\u00a0\r\n  b\n\t*/"

theorem doc_roughComment :
    IsDocComment roughComment ∧
      (({ depth := 1 } : Printer).doc (some roughComment)).out =
        "    /** C.\n\n     * a\n    b\n     */\n" ∧
      ∀ p : Printer, p.doc (some "/** C.\n\n     * a\n    b\n     */") =
        p.doc (some roughComment) := by
  have hcomment : IsDocComment roughComment := ⟨by decide, by decide⟩
  have hprint : (({ depth := 1 } : Printer).doc (some roughComment)).out =
      Line.margin 1 ++ "/** C.\n\n     * a\n    b\n     */" ++ "\n" := by
    decide
  obtain ⟨again, hout, -, -, hagain⟩ := doc_reprinted hcomment 1
  have hsame : "/** C.\n\n     * a\n    b\n     */" = again := by
    simpa using hprint.symm.trans hout
  refine ⟨hcomment, ?_, hsame ▸ hagain⟩
  rw [hprint]
  decide

end Stubsmith
