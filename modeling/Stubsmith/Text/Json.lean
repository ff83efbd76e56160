namespace Stubsmith.Text

inductive Json where
  | number (n : Nat)
  | text (s : String)
  | list (items : List Json)
  | object (fields : List (String × Json))
deriving Repr, Inhabited

namespace Json

def hexDigit (n : Nat) : Char :=
  (Nat.toDigits 16 n).headD '0'

/-- A character inside quotes. -/
def escape (c : Char) : List Char :=
  match c with
  | '"' => ['\\', '"']
  | '\\' => ['\\', '\\']
  | '\n' => ['\\', 'n']
  | '\r' => ['\\', 'r']
  | '\t' => ['\\', 't']
  | '\x08' => ['\\', 'b']
  | '\x0c' => ['\\', 'f']
  | c =>
    if c.toNat < 0x20 then
      ['\\', 'u', '0', '0', hexDigit (c.toNat / 16), hexDigit (c.toNat % 16)]
    else [c]

def quote (s : String) : String :=
  "\"" ++ String.ofList (s.toList.flatMap escape) ++ "\""

/-- The start of a line at a depth. -/
def margin (depth : Nat) : String :=
  String.ofList ('\n' :: List.replicate (2 * depth) ' ')

mutual

/-- A value on several lines, each step of nesting two spaces in. -/
def pretty (depth : Nat) : Json → String
  | number n => toString n
  | text s => quote s
  | list [] => "[]"
  | list (item :: items) =>
    "[" ++ prettyItems (depth + 1) (item :: items) ++ margin depth ++ "]"
  | object [] => "\x7b\x7d"
  | object (field :: fields) =>
    "\x7b" ++ prettyFields (depth + 1) (field :: fields) ++ margin depth ++ "\x7d"

def prettyItems (depth : Nat) : List Json → String
  | [] => ""
  | [item] => margin depth ++ pretty depth item
  | item :: items => margin depth ++ pretty depth item ++ "," ++ prettyItems depth items

def prettyFields (depth : Nat) : List (String × Json) → String
  | [] => ""
  | [(name, value)] => margin depth ++ quote name ++ ": " ++ pretty depth value
  | (name, value) :: fields =>
    margin depth ++ quote name ++ ": " ++ pretty depth value ++ "," ++ prettyFields depth fields

end

end Json

end Stubsmith.Text
