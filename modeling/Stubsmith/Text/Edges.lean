namespace Stubsmith.Text

def dropLeading (c : Char) (s : String) : String :=
  String.ofList (s.toList.dropWhile (· == c))

/-- The characters of a text without those at its two ends for which `p` holds. -/
def stripBoth (p : Char → Bool) (cs : List Char) : List Char :=
  ((cs.dropWhile p).reverse.dropWhile p).reverse

/-- ASCII capitals become small letters, all else stays. -/
def lowercase (s : String) : String :=
  String.ofList (s.toList.map Char.toLower)

/-- What follows the first characters `lead` of a text, if it starts with them. -/
def stripPrefix? : (lead cs : List Char) → Option (List Char)
  | [], cs => some cs
  | _ :: _, [] => none
  | p :: lead, c :: cs => if p = c then stripPrefix? lead cs else none

/-- What precedes the last characters `tail` of a text, if it ends with them. -/
def stripSuffix? (tail cs : List Char) : Option (List Char) :=
  (stripPrefix? tail.reverse cs.reverse).map List.reverse

/-- The parts of a text before and after the first `c`, if there is one. -/
def splitAtFirst? (c : Char) : List Char → Option (List Char × List Char)
  | [] => none
  | d :: cs =>
    if d = c then some ([], cs)
    else (splitAtFirst? c cs).map fun (before, after) => (d :: before, after)

/-- The pieces between the copies of `c`; a text without `c` is one piece. -/
def splitOn (c : Char) : List Char → List (List Char)
  | [] => [[]]
  | d :: cs =>
    if d = c then [] :: splitOn c cs
    else
      match splitOn c cs with
      | [] => [[d]]
      | piece :: pieces => (d :: piece) :: pieces

/-- A line that a line feed ends loses one carriage return before it. -/
def endLine (line : List Char) : List Char :=
  match line.getLast? with
  | some '\r' => line.dropLast
  | _ => line

/-- The lines that pieces are, each but the last one ended by a line feed. -/
def linesFrom : List (List Char) → List (List Char)
  | [] => []
  | [last] => if last.isEmpty then [] else [last]
  | line :: rest => endLine line :: linesFrom rest

/-- The lines of a text; a line feed ends a line, so none follows the last one. -/
def lines (s : String) : List String :=
  (linesFrom (splitOn '\n' s.toList)).map String.ofList

/-- Replaces every `a` followed by `b`, from left to right, by `c`. -/
def replacePair (a b c : Char) : List Char → List Char
  | x :: y :: rest =>
    if x = a ∧ y = b then c :: replacePair a b c rest else x :: replacePair a b c (y :: rest)
  | cs => cs

end Stubsmith.Text
