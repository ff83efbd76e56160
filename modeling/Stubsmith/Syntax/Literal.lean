import Stubsmith.Text.Edges

namespace Stubsmith.Syntax

/-- The text between two copies of a quote. -/
def unquote? (quote : Char) (cs : List Char) : Option (List Char) :=
  (Text.stripPrefix? [quote] cs).bind (Text.stripSuffix? [quote])

/-- A literal without the mark of a binary string. -/
def dropBinaryMark : List Char → List Char
  | 'b' :: cs => cs
  | 'B' :: cs => cs
  | cs => cs

/-- The value between single quotes: escaped backslashes are undone first, escaped quotes then. -/
def singleQuoted (body : List Char) : List Char :=
  Text.replacePair '\\' '\'' '\'' (Text.replacePair '\\' '\\' '\\' body)

/-- The value of a string literal. Between double quotes there is one only where nothing is escaped
or filled in. -/
def literalValue? (text : String) : Option String :=
  let cs := dropBinaryMark text.toList
  match unquote? '\'' cs with
  | some body => some (String.ofList (singleQuoted body))
  | none =>
    match unquote? '"' cs with
    | some body =>
      if body.contains '$' || body.contains '\\' then none else some (String.ofList body)
    | none => none

end Stubsmith.Syntax
