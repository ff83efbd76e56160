namespace Stubsmith.Toml

/-- A character that may stand in a comment or, apart from quotes and backslashes, in a string. -/
def isPrintable (c : Char) : Bool :=
  c == '\t' || (0x20 ≤ c.toNat && c.toNat != 0x7F)

def hexValue? (c : Char) : Option Nat :=
  if '0' ≤ c ∧ c ≤ '9' then some (c.toNat - 48)
  else if 'a' ≤ c ∧ c ≤ 'f' then some (c.toNat - 87)
  else if 'A' ≤ c ∧ c ≤ 'F' then some (c.toNat - 55)
  else none

/-- The character whose number the digits write. -/
def unicode? (digits : List Char) : Option Char :=
  (digits.foldlM (fun n c => (hexValue? c).map (16 * n + ·)) 0).bind fun n =>
    if h : n.isValidChar then some (Char.ofNatAux n h) else none

/-- The character that a backslash and a letter stand for. -/
def escaped? : Char → Option Char
  | 'b' => some '\x08'
  | 't' => some '\t'
  | 'n' => some '\n'
  | 'f' => some '\x0c'
  | 'r' => some '\r'
  | '"' => some '"'
  | '\\' => some '\\'
  | _ => none

/-- A character before the value of what follows. -/
def prepend (c : Char) (read : Option (List Char × List Char)) : Option (List Char × List Char) :=
  read.map fun (value, rest) => (c :: value, rest)

def prepend? (c : Option Char) (read : Option (List Char × List Char)) :
    Option (List Char × List Char) :=
  c.bind fun c => prepend c read

def basic : List Char → Option (List Char × List Char)
  | [] => none
  | '"' :: cs => some ([], cs)
  | '\\' :: 'u' :: a :: b :: c :: d :: cs => prepend? (unicode? [a, b, c, d]) (basic cs)
  | '\\' :: 'U' :: a :: b :: c :: d :: e :: f :: g :: h :: cs =>
    prepend? (unicode? [a, b, c, d, e, f, g, h]) (basic cs)
  | '\\' :: c :: cs => prepend? (escaped? c) (basic cs)
  | c :: cs => if isPrintable c && c != '\\' then prepend c (basic cs) else none

def literal : List Char → Option (List Char × List Char)
  | [] => none
  | '\'' :: cs => some ([], cs)
  | c :: cs => if isPrintable c then prepend c (literal cs) else none

/-- Where a reader stands behind a backslash at the end of a line. -/
inductive LineJoin where
  | none
  /-- The end of the line is still to come. -/
  | seeking
  /-- White space is skipped up to the next character that is none. -/
  | skipping
deriving DecidableEq, Repr, Inhabited

/-- A basic string on several lines. Up to two quotes may stand before the closing three. -/
def basicLines : LineJoin → List Char → Option (List Char × List Char)
  | _, [] => none
  | .seeking, '\r' :: '\n' :: cs => basicLines .skipping cs
  | .seeking, c :: cs =>
    if c = '\n' then basicLines .skipping cs
    else if c = ' ' || c = '\t' then basicLines .seeking cs
    else none
  | .skipping, '\r' :: '\n' :: cs => basicLines .skipping cs
  | .skipping, ' ' :: cs => basicLines .skipping cs
  | .skipping, '\t' :: cs => basicLines .skipping cs
  | .skipping, '\n' :: cs => basicLines .skipping cs
  | _, '"' :: '"' :: '"' :: '"' :: '"' :: cs => some (['"', '"'], cs)
  | _, '"' :: '"' :: '"' :: '"' :: cs => some (['"'], cs)
  | _, '"' :: '"' :: '"' :: cs => some ([], cs)
  | _, '\r' :: '\n' :: cs => prepend '\n' (basicLines .none cs)
  | _, '\\' :: 'u' :: a :: b :: c :: d :: cs =>
    prepend? (unicode? [a, b, c, d]) (basicLines .none cs)
  | _, '\\' :: 'U' :: a :: b :: c :: d :: e :: f :: g :: h :: cs =>
    prepend? (unicode? [a, b, c, d, e, f, g, h]) (basicLines .none cs)
  | _, '\\' :: '\r' :: '\n' :: cs => basicLines .skipping cs
  | _, '\\' :: c :: cs =>
    if c = '\n' then basicLines .skipping cs
    else if c = ' ' || c = '\t' then basicLines .seeking cs
    else prepend? (escaped? c) (basicLines .none cs)
  | _, c :: cs =>
    if c = '\n' || (isPrintable c && c != '\\') then prepend c (basicLines .none cs) else none

/-- A literal string on several lines. Up to two quotes may stand before the closing three. -/
def literalLines : List Char → Option (List Char × List Char)
  | [] => none
  | '\'' :: '\'' :: '\'' :: '\'' :: '\'' :: cs => some (['\'', '\''], cs)
  | '\'' :: '\'' :: '\'' :: '\'' :: cs => some (['\''], cs)
  | '\'' :: '\'' :: '\'' :: cs => some ([], cs)
  | '\r' :: '\n' :: cs => prepend '\n' (literalLines cs)
  | c :: cs => if c = '\n' || isPrintable c then prepend c (literalLines cs) else none

/-- Text without a line end at its start, which the opening quotes of several lines take with them.
-/
def dropLineEnd : List Char → List Char
  | '\r' :: '\n' :: cs => cs
  | '\n' :: cs => cs
  | cs => cs

/-- A string of any form, from its opening quotes on. -/
def quoted? : List Char → Option (List Char × List Char)
  | '"' :: '"' :: '"' :: cs => basicLines .none (dropLineEnd cs)
  | '\'' :: '\'' :: '\'' :: cs => literalLines (dropLineEnd cs)
  | cs => quotedLine? cs
where
  /-- A string that ends on its line. -/
  quotedLine? : List Char → Option (List Char × List Char)
    | '"' :: cs => basic cs
    | '\'' :: cs => literal cs
    | _ => none

end Stubsmith.Toml
