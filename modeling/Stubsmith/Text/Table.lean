namespace Stubsmith.Text

/-- A text with spaces behind it up to a width. -/
def padTo (width : Nat) (cell : String) : String :=
  cell ++ String.ofList (List.replicate (width - cell.length) ' ')

def columnWidths (header : List String) (rows : List (List String)) : List Nat :=
  header.mapIdx fun column title =>
    (rows.filterMap (·[column]?)).foldl (fun width cell => max width cell.length) title.length

/-- The line above, below and between the parts of a table. -/
def tableBorder (widths : List Nat) : String :=
  "+" ++ String.join (widths.map fun width =>
    String.ofList (List.replicate (width + 2) '-') ++ "+")

def tableRow (widths : List Nat) (cells : List String) : String :=
  "|" ++ String.join ((cells.zip widths).map fun (cell, width) => " " ++ padTo width cell ++ " |")

def tableLines (header : List String) (rows : List (List String)) : List String :=
  let widths := columnWidths header rows
  let border := tableBorder widths
  [border, tableRow widths header, border] ++ rows.map (tableRow widths) ++ [border]

/-- A column is as wide as the longest of its cells in characters, and cells stand at its left. -/
def renderTable (header : List String) (rows : List (List String)) : String :=
  String.join ((tableLines header rows).map (· ++ "\n"))

end Stubsmith.Text
