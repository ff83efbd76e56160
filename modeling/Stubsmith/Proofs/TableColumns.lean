import Mathlib.Data.List.Forall2
import Stubsmith.Proofs.OneLine
import Stubsmith.Text.Table

namespace Stubsmith.Text

/-- Fields with a mark before, between and behind them. -/
def ruled (mark : Char) (fields : List (List Char)) : List Char :=
  mark :: fields.flatMap (· ++ [mark])

/-- Where the marks around fields of some lengths stand, the first of them at `start`. -/
def stopsFrom (start : Nat) : List Nat → List Nat
  | [] => [start]
  | n :: ns => start :: stopsFrom (start + n + 1) ns

/-- Where the last of them stands. -/
def lastStop (start : Nat) : List Nat → Nat
  | [] => start
  | n :: ns => lastStop (start + n + 1) ns

section

variable {mark : Char} {field : List Char} {fields : List (List Char)} {start : Nat} {ns : List Nat}

theorem ruled_cons (mark : Char) (field : List Char) (fields : List (List Char)) :
    ruled mark (field :: fields) = mark :: (field ++ ruled mark fields) := by
  simp [ruled]

theorem append_ruled_cons (lead : List Char) : lead ++ ruled mark (field :: fields) =
    (lead ++ mark :: field) ++ ruled mark fields := by
  simp [ruled_cons]

theorem length_append_field (lead : List Char) :
    (lead ++ mark :: field).length = lead.length + field.length + 1 := by
  simp [Nat.add_assoc]

theorem getLast?_ruled : (ruled mark fields).getLast? = some mark := by
  induction fields with
  | nil => rfl
  | cons field fields ih =>
    have hne : ruled mark fields ≠ [] := List.cons_ne_nil _ _
    rw [ruled_cons, ← List.cons_append, List.getLast?_append_of_ne_nil _ hne, ih]

theorem head?_stopsFrom : (stopsFrom start ns).head? = some start := by
  cases ns <;> rfl

theorem length_stopsFrom : (stopsFrom start ns).length = ns.length + 1 := by
  induction ns generalizing start with
  | nil => rfl
  | cons n ns ih => simp [stopsFrom, ih]

theorem getLast?_stopsFrom : (stopsFrom start ns).getLast? = some (lastStop start ns) := by
  induction ns generalizing start with
  | nil => rfl
  | cons n ns ih =>
    have hne : stopsFrom (start + n + 1) ns ≠ [] := by cases ns <;> simp [stopsFrom]
    rw [stopsFrom, List.getLast?_cons_of_ne_nil hne, ih, lastStop]

theorem le_of_mem_stopsFrom {stop : Nat} (h : stop ∈ stopsFrom start ns) : start ≤ stop := by
  induction ns generalizing start with
  | nil => exact (List.mem_singleton.1 h).ge
  | cons n ns ih =>
    rcases List.mem_cons.1 h with rfl | h
    · exact Nat.le_refl _
    · have hle := ih h
      omega

theorem pairwise_stopsFrom : (stopsFrom start ns).Pairwise (· < ·) := by
  induction ns generalizing start with
  | nil => exact List.pairwise_singleton _ _
  | cons n ns ih =>
    refine List.pairwise_cons.2 ⟨fun stop hstop => ?_, ih⟩
    have hle := le_of_mem_stopsFrom hstop
    omega

/-- Behind any text, a ruled line ends at its last stop. -/
theorem length_append_ruled (lead : List Char) : (lead ++ ruled mark fields).length =
    lastStop lead.length (fields.map List.length) + 1 := by
  induction fields generalizing lead with
  | nil => simp [ruled, lastStop]
  | cons field fields ih => rw [append_ruled_cons, ih, length_append_field, List.map_cons, lastStop]

/-- Behind any text, a ruled line has the mark at each of its stops. -/
theorem mark_of_mem_stopsFrom (mark : Char) (lead : List Char) {stop : Nat}
    (h : stop ∈ stopsFrom lead.length (fields.map List.length)) :
    (lead ++ ruled mark fields)[stop]? = some mark := by
  induction fields generalizing lead with
  | nil =>
    obtain rfl := List.mem_singleton.1 h
    simp [ruled]
  | cons field fields ih =>
    rcases List.mem_cons.1 h with rfl | h
    · simp [ruled]
    · rw [append_ruled_cons]
      apply ih
      rwa [length_append_field]

/-- Behind any text, a ruled line has each field between two stops that follow each other. -/
theorem field_between_stops (mark : Char) (lead : List Char) {i : Nat}
    (h : fields[i]? = some field) :
    ∃ a b, (stopsFrom lead.length (fields.map List.length))[i]? = some a ∧
      (stopsFrom lead.length (fields.map List.length))[i + 1]? = some b ∧
      ((lead ++ ruled mark fields).take b).drop (a + 1) = field := by
  induction fields generalizing lead i with
  | nil => cases h
  | cons first fields ih =>
    -- Seen from the rest of the line, the first field is part of the text before it.
    rw [append_ruled_cons]
    cases i with
    | zero =>
      obtain rfl := Option.some.inj h
      have hlength : (lead ++ mark :: first).length = _ := length_append_field lead
      refine ⟨lead.length, lead.length + first.length + 1, rfl, ?_, ?_⟩
      · rw [List.map_cons, stopsFrom, List.getElem?_cons_succ, ← List.head?_eq_getElem?,
          head?_stopsFrom]
      · rw [← hlength, List.take_left, List.append_cons]
        exact List.drop_left' (by simp)
    | succ i =>
      obtain ⟨a, b, ha, hb, hfield⟩ := ih (lead ++ mark :: first) h
      rw [length_append_field] at ha hb
      exact ⟨a, b, ha, hb, hfield⟩

end

/-- What a row has between two separators. -/
def rowField (width : Nat) (cell : String) : List Char :=
  ' ' :: ((padTo width cell).toList ++ [' '])

section

variable {width : Nat} {cell : String} {widths : List Nat} {cells : List String}

theorem toList_padTo :
    (padTo width cell).toList = cell.toList ++ List.replicate (width - cell.length) ' ' := by
  simp [padTo]

theorem length_rowField (h : cell.length ≤ width) : (rowField width cell).length = width + 2 := by
  simp [rowField, toList_padTo, String.length_toList]
  omega

theorem toList_tableRow : (tableRow widths cells).toList =
    ruled '|' ((cells.zip widths).map fun (cell, width) => rowField width cell) := by
  simp [tableRow, ruled, rowField, List.flatMap, Function.comp_def]

theorem toList_tableBorder : (tableBorder widths).toList =
    ruled '+' (widths.map fun width => List.replicate (width + 2) '-') := by
  simp [tableBorder, ruled, List.flatMap, Function.comp_def]

/-- Whether every cell has room in its column. -/
def Fits (widths : List Nat) (cells : List String) : Prop :=
  cells.length = widths.length ∧ ∀ p ∈ cells.zip widths, p.1.length ≤ p.2

/-- Rows whose cells have room have their marks in the same places. -/
theorem lengths_rowFields (h : Fits widths cells) :
    ((cells.zip widths).map fun (cell, width) => rowField width cell).map List.length =
      widths.map (· + 2) := by
  have hsnd : (cells.zip widths).map Prod.snd = widths := List.map_snd_zip h.1.ge
  rw [List.map_map, ← congrArg (List.map (· + 2)) hsnd, List.map_map]
  exact List.map_congr_left fun p hp => length_rowField (h.2 p hp)

theorem lengths_borderFields :
    (widths.map fun width => List.replicate (width + 2) '-').map List.length =
      widths.map (· + 2) := by
  simp [Function.comp_def]

/-- A line in which cells stand one by one between separators at `stops`: each of them whole, behind
one space and before one or more. -/
structure Shows (stops : List Nat) (cells : List String) (line : String) : Prop where
  separated : ∀ stop ∈ stops, line.toList[stop]? = some '|'
  shown : ∀ i cell, cells[i]? = some cell → ∃ a b n, stops[i]? = some a ∧ stops[i + 1]? = some b ∧
    (line.toList.take b).drop (a + 1) = ' ' :: (cell.toList ++ List.replicate (n + 1) ' ')

theorem shows_tableRow (h : Fits widths cells) :
    Shows (stopsFrom 0 (widths.map (· + 2))) cells (tableRow widths cells) := by
  constructor
  · intro stop hstop
    rw [← lengths_rowFields h] at hstop
    rw [toList_tableRow]
    exact mark_of_mem_stopsFrom '|' [] hstop
  · intro i cell hcell
    obtain ⟨hlt, -⟩ := List.getElem?_eq_some_iff.1 hcell
    obtain ⟨width, hwidth⟩ : ∃ width, widths[i]? = some width :=
      ⟨_, List.getElem?_eq_getElem (h.1 ▸ hlt)⟩
    have hfield : ((cells.zip widths).map fun (cell, width) => rowField width cell)[i]? =
        some (rowField width cell) := by
      have hzip : (cells.zip widths)[i]? = some (cell, width) :=
        List.getElem?_zip_eq_some.2 ⟨hcell, hwidth⟩
      simp [hzip]
    obtain ⟨a, b, ha, hb, hbetween⟩ := field_between_stops '|' [] hfield
    rw [lengths_rowFields h] at ha hb
    refine ⟨a, b, width - cell.length, ha, hb, ?_⟩
    rw [toList_tableRow, List.replicate_succ', ← List.append_assoc, ← toList_padTo]
    exact hbetween

theorem length_tableRow (h : Fits widths cells) :
    (tableRow widths cells).length = lastStop 0 (widths.map (· + 2)) + 1 := by
  rw [← String.length_toList, toList_tableRow, ← lengths_rowFields h]
  exact length_append_ruled []

theorem length_tableBorder :
    (tableBorder widths).length = lastStop 0 (widths.map (· + 2)) + 1 := by
  rw [← String.length_toList, toList_tableBorder, ← lengths_borderFields]
  exact length_append_ruled []

theorem oneLine_padTo (h : OneLine cell) : OneLine (padTo width cell) := by
  rw [OneLine, toList_padTo]
  simpa [OneLine] using h

theorem oneLine_tableRow (h : OneLines cells) : OneLine (tableRow widths cells) := by
  have hcell : ∀ cell width, (cell, width) ∈ cells.zip widths → OneLine (padTo width cell) :=
    fun cell width hp => oneLine_padTo (h cell (List.of_mem_zip hp).1)
  simpa +decide [tableRow] using hcell

theorem oneLine_tableBorder : OneLine (tableBorder widths) := by
  simp +decide [tableBorder, OneLine]

end

section

variable {header : List String} {rows : List (List String)} {cells : List String}

theorem le_foldl_max (cells : List String) (width : Nat) :
    width ≤ cells.foldl (fun width cell => max width cell.length) width ∧
      ∀ cell ∈ cells,
        cell.length ≤ cells.foldl (fun width cell => max width cell.length) width := by
  induction cells generalizing width with
  | nil => simp
  | cons cell cells ih =>
    obtain ⟨hwidth, hcells⟩ := ih (max width cell.length)
    refine ⟨(Nat.le_max_left _ _).trans hwidth, List.forall_mem_cons.2 ⟨?_, hcells⟩⟩
    exact (Nat.le_max_right _ _).trans hwidth

/-- A column is wide enough for each of its cells. -/
theorem fits_columnWidths (hcells : cells ∈ header :: rows)
    (hlength : cells.length = header.length) : Fits (columnWidths header rows) cells := by
  refine ⟨by rw [hlength, columnWidths, List.length_mapIdx], fun p hp => ?_⟩
  obtain ⟨i, hi⟩ := List.mem_iff_getElem?.1 hp
  obtain ⟨hcell, hwidth⟩ := List.getElem?_zip_eq_some.1 hi
  rw [columnWidths, List.getElem?_mapIdx] at hwidth
  obtain ⟨title, htitle, hwidth⟩ := Option.map_eq_some_iff.1 hwidth
  obtain ⟨htop, hbelow⟩ := le_foldl_max (rows.filterMap (·[i]?)) title.length
  rw [← hwidth]
  rcases List.mem_cons.1 hcells with rfl | hrow
  · obtain rfl : title = p.1 := Option.some.inj (htitle.symm.trans hcell)
    exact htop
  · exact hbelow p.1 (List.mem_filterMap.2 ⟨cells, hrow, hcell⟩)

theorem mem_tableLines {line : String} : line ∈ tableLines header rows ↔
    line = tableBorder (columnWidths header rows) ∨
      ∃ cells ∈ header :: rows, line = tableRow (columnWidths header rows) cells := by
  simp only [tableLines, List.mem_append, List.mem_cons, List.mem_map]
  grind

/-- Where no cell has a line feed in it, the lines of a table are those that it is drawn from. -/
theorem lines_renderTable (hcells : ∀ cells ∈ header :: rows, OneLines cells) :
    lines (renderTable header rows) = tableLines header rows := by
  apply lines_join
  · intro line hline
    rcases mem_tableLines.1 hline with rfl | ⟨cells, hmem, rfl⟩
    · exact oneLine_tableBorder
    · exact oneLine_tableRow (hcells cells hmem)
  · intro line hline
    rcases mem_tableLines.1 hline with rfl | ⟨cells, -, rfl⟩
    · rw [toList_tableBorder, getLast?_ruled]
      decide
    · rw [toList_tableRow, getLast?_ruled]
      decide

/-- A table whose rows have as many cells as its header, none of them with a line feed in it, is a
rectangle: the header and the rows stand between borders, all lines are equally long, and there are
stops, one more than columns and the outer ones at the edges of the lines, where all rows have their
separators and between which they show their cells. -/
theorem renderTable_rectangle (header : List String) (rows : List (List String))
    (hrows : ∀ row ∈ rows, row.length = header.length)
    (hcells : ∀ cells ∈ header :: rows, OneLines cells) :
    ∃ last stops border top below,
      lines (renderTable header rows) = border :: top :: border :: (below ++ [border]) ∧
        (∀ line ∈ lines (renderTable header rows), line.length = last + 1) ∧
        stops.length = header.length + 1 ∧ stops.Pairwise (· < ·) ∧
        stops.head? = some 0 ∧ stops.getLast? = some last ∧
        (∀ stop ∈ stops, border.toList[stop]? = some '+') ∧
        Shows stops header top ∧ List.Forall₂ (Shows stops) rows below := by
  let widths := columnWidths header rows
  have hfits : ∀ cells ∈ header :: rows, Fits widths cells := by
    intro cells hmem
    refine fits_columnWidths hmem ?_
    rcases List.mem_cons.1 hmem with rfl | hrow
    · rfl
    · exact hrows cells hrow
  obtain ⟨hheader, hbelow⟩ := List.forall_mem_cons.1 hfits
  refine ⟨lastStop 0 (widths.map (· + 2)), stopsFrom 0 (widths.map (· + 2)),
    tableBorder widths, tableRow widths header, rows.map (tableRow widths),
    lines_renderTable hcells, ?_, ?_, pairwise_stopsFrom, head?_stopsFrom, getLast?_stopsFrom, ?_,
    shows_tableRow hheader, ?_⟩
  · intro line hline
    rw [lines_renderTable hcells] at hline
    rcases mem_tableLines.1 hline with rfl | ⟨cells, hmem, rfl⟩
    · exact length_tableBorder
    · exact length_tableRow (hfits cells hmem)
  · rw [length_stopsFrom, List.length_map, hheader.1]
  · intro stop hstop
    rw [← lengths_borderFields] at hstop
    rw [toList_tableBorder]
    exact mark_of_mem_stopsFrom '+' [] hstop
  · rw [List.forall₂_map_right_iff, List.forall₂_same]
    exact fun row hrow => shows_tableRow (hbelow row hrow)

/-- Duplicates, one of them under a name that is longer in bytes than in characters. -/
def duplicateRows : List (List String) :=
  [["functions", "\\für", "2"], ["classes", "\\N|C", "10"]]

theorem renderTable_duplicateRows :
    let header := ["kind", "name", "count"]
    (∀ row ∈ duplicateRows, row.length = header.length) ∧
      (∀ cells ∈ header :: duplicateRows, OneLines cells) ∧
      ∃ stops, stops.length = 4 ∧ stops.Pairwise (· < ·) ∧
        stops.head? = some 0 ∧ stops.getLast? = some 27 ∧
        Shows stops header "| kind      | name | count |" ∧
        List.Forall₂ (Shows stops) duplicateRows
          ["| functions | \\für | 2     |", "| classes   | \\N|C | 10    |"] := by
  intro header
  have hrows : ∀ row ∈ duplicateRows, row.length = header.length := by decide
  have hcells : ∀ cells ∈ header :: duplicateRows, OneLines cells := by
    unfold OneLines
    decide
  refine ⟨hrows, hcells, ?_⟩
  obtain ⟨last, stops, border, top, below, hlines, hwidth, hlength, hlt, hfirst, hlast, -, htop,
    hbelow⟩ := renderTable_rectangle header duplicateRows hrows hcells
  have hdrawn : lines (renderTable header duplicateRows) =
      ["+-----------+------+-------+", "| kind      | name | count |",
        "+-----------+------+-------+", "| functions | \\für | 2     |",
        "| classes   | \\N|C | 10    |", "+-----------+------+-------+"] := by
    rw [lines_renderTable hcells]
    rfl
  have htopWidth : "| kind      | name | count |".length = last + 1 :=
    hwidth _ (by rw [hdrawn]; simp)
  rw [hlines] at hdrawn
  obtain ⟨rfl, hbehind⟩ := List.cons.inj hdrawn
  obtain ⟨rfl, hrest⟩ := List.cons.inj hbehind
  obtain rfl : below = ["| functions | \\für | 2     |", "| classes   | \\N|C | 10    |"] :=
    List.append_cancel_right (List.cons.inj hrest).2
  obtain rfl : 27 = last := Nat.succ.inj htopWidth
  exact ⟨stops, hlength, hlt, hfirst, hlast, htop, hbelow⟩

end

end Stubsmith.Text
