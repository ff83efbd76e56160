import Stubsmith.Toml.Quoted
import Stubsmith.Toml.Scalar
import Stubsmith.Toml.Table

namespace Stubsmith.Toml

def isSpace (c : Char) : Bool :=
  c == ' ' || c == '\t'

def skipSpace (cs : List Char) : List Char :=
  cs.dropWhile isSpace

def skipComment (cs : List Char) : List Char :=
  cs.dropWhile isPrintable

/-- What follows the end of a line, which may be the end of the text, behind space and a comment. -/
def lineEnd? (cs : List Char) : Option (List Char) :=
  let bare :=
    match skipSpace cs with
    | '#' :: comment => skipComment comment
    | cs => cs
  match bare with
  | [] => some []
  | '\n' :: rest => some rest
  | '\r' :: '\n' :: rest => some rest
  | _ => none

/-- What follows space, line ends and comments. The flag says whether a comment is being skipped,
which only a line end or the end of the text may follow. -/
def skipBlank? : Bool → List Char → Option (List Char)
  | _, [] => some []
  | _, '\r' :: '\n' :: cs => skipBlank? false cs
  | true, c :: cs =>
    if c = '\n' then skipBlank? false cs
    else if isPrintable c then skipBlank? true cs
    else none
  | false, c :: cs =>
    if isSpace c || c = '\n' then skipBlank? false cs
    else if c = '#' then skipBlank? true cs
    else some (c :: cs)

def isBareKeyChar (c : Char) : Bool :=
  c.isAlphanum || c == '_' || c == '-'

/-- One key without dots. -/
def simpleKey? (cs : List Char) : Option (String × List Char) :=
  match cs with
  | '"' :: _ | '\'' :: _ => (quoted?.quotedLine? cs).map fun (key, rest) => (String.ofList key, rest)
  | _ =>
    match cs.takeWhile isBareKeyChar with
    | [] => none
    | key => some (String.ofList key, cs.dropWhile isBareKeyChar)

/-- The keys of a dotted key, with space around each. The number bounds how many there are. -/
def keys? : Nat → List Char → Option (List String × List Char)
  | 0, _ => none
  | more + 1, cs =>
    (simpleKey? (skipSpace cs)).bind fun (key, rest) =>
      match skipSpace rest with
      | '.' :: rest => (keys? more rest).map fun (keys, rest) => (key :: keys, rest)
      | rest => some ([key], rest)

/-- The most keys of a dotted key, and the most arrays and tables that may stand in one another. -/
def nestingLimit : Nat := 79

/-- A dotted key, as the path to its last key and that key. -/
def dottedKey? (cs : List Char) : Option ((List String × String) × List Char) :=
  (keys? nestingLimit cs).bind fun (keys, rest) =>
    keys.getLast?.map fun last => ((keys.dropLast, last), rest)

mutual

/-- A value and what follows it. The first number bounds the work that is left, the second the
nesting. -/
def value? : Nat → Nat → List Char → Option (Value × List Char)
  | 0, _, _ => none
  | work + 1, nesting, cs =>
    match cs with
    | '"' :: _ | '\'' :: _ => (quoted? cs).map fun (s, rest) => (.text (String.ofList s), rest)
    | '[' :: rest =>
      match nesting with
      | 0 => none
      | nesting + 1 =>
        (items? work nesting rest).map fun (items, rest) => (.array items, rest)
    | '{' :: rest =>
      match nesting with
      | 0 => none
      | nesting + 1 =>
        match skipSpace rest with
        | '}' :: rest => some (.table .braces [], rest)
        | rest =>
          (fields? work nesting [] rest).map fun (entries, rest) => (.table .braces entries, rest)
    | cs =>
      let (here, rest) := word cs
      (scalar? here).map fun value => (value, rest)

/-- The values of an array from some place on, with its closing bracket. -/
def items? : Nat → Nat → List Char → Option (List Value × List Char)
  | 0, _, _ => none
  | work + 1, nesting, cs =>
    match skipBlank? false cs with
    | none => none
    | some (']' :: rest) => some ([], rest)
    | some cs =>
      match value? work nesting cs with
      | none => none
      | some (value, rest) =>
        match skipBlank? false rest with
        | some (',' :: rest) =>
          (items? work nesting rest).map fun (items, rest) => (value :: items, rest)
        | some (']' :: rest) => some ([value], rest)
        | _ => none

/-- The entries of a table between braces from some place on, with its closing brace. -/
def fields? : Nat → Nat → Entries → List Char → Option (Entries × List Char)
  | 0, _, _, _ => none
  | work + 1, nesting, entries, cs =>
    match dottedKey? cs with
    | some ((path, key), '=' :: rest) =>
      match value? work nesting (skipSpace rest) with
      | none => none
      | some (value, rest) =>
        match Entries.define? path key value entries, skipSpace rest with
        | some entries, ',' :: rest => fields? work nesting entries rest
        | some entries, '}' :: rest => some (entries, rest)
        | _, _ => none
    | _ => none

end

/-- A value and what follows it. Each step of the work takes a character or goes one call deeper at
the same one. -/
def readValue? (cs : List Char) : Option (Value × List Char) :=
  value? (2 * cs.length + 2) nestingLimit cs

/-- A document that is being read: its entries, and the path of the table that keys go to. -/
structure Draft where
  entries : Entries := []
  current : List String := []
deriving Repr, Inhabited

/-- What a line with a header in double brackets defines. -/
def Draft.arrayHeader? (d : Draft) (cs : List Char) : Option (Draft × List Char) :=
  (dottedKey? cs).bind fun ((path, key), rest) =>
    match rest with
    | ']' :: ']' :: rest =>
      (Entries.atHeader? path (Entries.appendTable? key) d.entries).map fun entries =>
        (⟨entries, path ++ [key]⟩, rest)
    | _ => none

def Draft.header? (d : Draft) (cs : List Char) : Option (Draft × List Char) :=
  (dottedKey? cs).bind fun ((path, key), rest) =>
    match rest with
    | ']' :: rest =>
      (Entries.atHeader? path (Entries.defineTable? key) d.entries).map fun entries =>
        (⟨entries, path ++ [key]⟩, rest)
    | _ => none

/-- What a line with a key and a value defines. -/
def Draft.keyValue? (d : Draft) (cs : List Char) : Option (Draft × List Char) :=
  match dottedKey? cs with
  | some ((path, key), '=' :: rest) =>
    (readValue? (skipSpace rest)).bind fun (value, rest) =>
      (Entries.atHeader? d.current (Entries.define? path key value) d.entries).map fun entries =>
        ({ d with entries := entries }, rest)
  | _ => none

/-- What a line that is not blank defines. -/
def Draft.line? (d : Draft) (cs : List Char) : Option (Draft × List Char) :=
  match cs with
  | '[' :: '[' :: cs => d.arrayHeader? cs
  | '[' :: cs => d.header? cs
  | cs => d.keyValue? cs

/-- Reads lines to the end of the text. The number bounds how many there are. -/
def Draft.lines? : Nat → Draft → List Char → Option Entries
  | 0, _, _ => none
  | more + 1, d, cs =>
    match skipBlank? false cs with
    | some [] => some d.entries
    | some cs =>
      match d.line? cs with
      | some (d, rest) => (lineEnd? rest).bind (Draft.lines? more d)
      | none => none
    | none => none

/-- A text without the mark that may stand before it. -/
def dropByteOrderMark : List Char → List Char
  | '\ufeff' :: cs => cs
  | cs => cs

def read? (text : String) : Option Entries :=
  let cs := dropByteOrderMark text.toList
  Draft.lines? (cs.length + 1) {} cs

end Stubsmith.Toml
