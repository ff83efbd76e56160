import Stubsmith.Toml.Value

namespace Stubsmith.Toml.Entries

def find? (entries : Entries) (key : String) : Option Value :=
  entries.lookup key

/-- The entries with a key's value replaced, or the key added as the last. -/
def put (key : String) (value : Value) : Entries → Entries
  | [] => [(key, value)]
  | (k, v) :: rest => if k = key then (k, value) :: rest else (k, v) :: put key value rest

def add? (key : String) (value : Value) (entries : Entries) : Option Entries :=
  match find? entries key with
  | some _ => none
  | none => some (put key value entries)

/-- Changes the table that a key leads to. A table that is missing is made, with the origin given;
the way into an array of tables is into its latest. Tables of some origins are closed. -/
def step? (made : Origin) (isClosed : Origin → Bool) (key : String)
    (change : Origin → Entries → Option Entries) (entries : Entries) : Option Entries :=
  match find? entries key with
  | none => (change made []).map fun inner => put key (.table made inner) entries
  | some (.table origin inner) =>
    if isClosed origin then none
    else (change origin inner).map fun inner => put key (.table origin inner) entries
  | some (.tables (.table origin inner :: earlier)) =>
    (change origin inner).map fun inner =>
      put key (.tables (.table origin inner :: earlier)) entries
  | some _ => none

/-- Changes the table at the end of a path of keys, given the origin of the table at its start. -/
def along? (made : Origin) (isClosed : Origin → Bool) (change : Origin → Entries → Option Entries) :
    List String → Origin → Entries → Option Entries
  | [], origin, entries => change origin entries
  | key :: path, _, entries =>
    step? made isClosed key (along? made isClosed change path) entries

/-- Changes the table at the end of the path of a header. -/
def atHeader? (path : List String) (change : Entries → Option Entries) (entries : Entries) :
    Option Entries :=
  along? .implied (· == .braces) (fun _ inner => change inner) path .header entries

def defineTable? (key : String) (entries : Entries) : Option Entries :=
  match find? entries key with
  | none => some (put key (.table .header []) entries)
  | some (.table .implied inner) => some (put key (.table .header inner) entries)
  | some _ => none

/-- Adds a table to the array of a header in double brackets. -/
def appendTable? (key : String) (entries : Entries) : Option Entries :=
  match find? entries key with
  | none => some (put key (.tables [.table .header []]) entries)
  | some (.tables items) => some (put key (.tables (.table .header [] :: items)) entries)
  | some _ => none

/-- Defines a value under a path of keys and a last key. Where the path is not empty it must end in
a table that dotted keys made. -/
def define? (path : List String) (key : String) (value : Value) (entries : Entries) :
    Option Entries :=
  along? .dotted (fun origin => origin == .header || origin == .braces)
    (fun origin inner =>
      if !path.isEmpty && origin != .dotted then none else add? key value inner)
    path .header entries

end Stubsmith.Toml.Entries
