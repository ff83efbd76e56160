namespace Stubsmith.Text

/-- The characters after the first `n` bytes. -/
def dropBytes? : Nat → List Char → Option (List Char)
  | 0, cs => some cs
  | _ + 1, [] => none
  | n + 1, c :: cs =>
    if c.utf8Size ≤ n + 1 then dropBytes? (n + 1 - c.utf8Size) cs else none

/-- The characters that fill the first `n` bytes. -/
def takeBytes? : Nat → List Char → Option (List Char)
  | 0, _ => some []
  | _ + 1, [] => none
  | n + 1, c :: cs =>
    if c.utf8Size ≤ n + 1 then (takeBytes? (n + 1 - c.utf8Size) cs).map (c :: ·) else none

/-- A cut is made only between two characters: there is none where an offset falls inside one or
past the end. -/
def slice? (cs : List Char) (start stop : Nat) : Option (List Char) :=
  if start ≤ stop then (dropBytes? start cs).bind (takeBytes? (stop - start)) else none

/-- The text between two byte offsets, empty where there is none. -/
def slice (s : String) (start stop : Nat) : String :=
  String.ofList ((slice? s.toList start stop).getD [])

/-- Line feeds passed, and bytes since the last of them, on the way to a byte offset. -/
def rowColumn : List Char → Nat → Nat × Nat → Nat × Nat
  | _, 0, at_ => at_
  | [], _ + 1, at_ => at_
  | c :: cs, n + 1, (row, column) =>
    rowColumn cs (n + 1 - c.utf8Size)
      (if c = '\n' then (row + 1, 0) else (row, column + min c.utf8Size (n + 1)))

end Stubsmith.Text
