namespace Stubsmith.Toml

/-- How a table came about, which decides on what may be added to it. -/
inductive Origin where
  /-- By a header of its own. -/
  | header
  /-- By a header of a table below it. -/
  | implied
  /-- By a dotted key. -/
  | dotted
  /-- Between braces. -/
  | braces
deriving DecidableEq, Repr, Inhabited

/-- Numbers, dates and times are known to be well formed and keep no more than their text, since
nothing reads them. -/
inductive Value where
  | text (s : String)
  | boolean (b : Bool)
  | number (written : String)
  | moment (written : String)
  | array (items : List Value)
  | table (origin : Origin) (entries : List (String × Value))
  /-- The tables of headers in double brackets, the latest first. -/
  | tables (items : List Value)
deriving Repr, Inhabited

/-- Keys with their values, in the order of definition. -/
abbrev Entries := List (String × Value)

namespace Value

def text? : Value → Option String
  | text s => some s
  | _ => none

def boolean? : Value → Option Bool
  | boolean b => some b
  | _ => none

/-- The texts of an array that holds nothing else. -/
def texts? : Value → Option (List String)
  | array items => items.mapM text?
  | _ => none

end Value

end Stubsmith.Toml
