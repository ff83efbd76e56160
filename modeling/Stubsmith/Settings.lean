import Stubsmith.Failure
import Stubsmith.Files.Path
import Stubsmith.Symbol.Known
import Stubsmith.Symbol.Selection
import Stubsmith.Toml.Document

namespace Stubsmith

structure Settings where
  /-- Names of symbols to keep; none stand for the standard selection. -/
  symbols : List String := []
  nullifyGlobals : Bool := false
  keepInaccessible : Bool := false
  /-- Text right below the opening tag. -/
  header : Option String := none
  /-- Patterns of files to leave out. -/
  exclude : List String := []
  /-- The file that lists what exists already. -/
  knownSymbols : Option String := none
deriving DecidableEq, Repr, Inhabited

namespace Settings

def set? (s : Settings) (key : String) (value : Toml.Value) : Option Settings :=
  match key with
  | "symbols" => value.texts?.map fun names => { s with symbols := names }
  | "nullify_globals" => value.boolean?.map fun b => { s with nullifyGlobals := b }
  | "include_inaccessible_class_nodes" =>
    value.boolean?.map fun b => { s with keepInaccessible := b }
  | "header" => value.text?.map fun text => { s with header := some text }
  | "exclude" => value.texts?.map fun patterns => { s with exclude := patterns }
  | "known_symbols" => value.text?.map fun path => { s with knownSymbols := some path }
  | _ => none

def ofEntries? (entries : Toml.Entries) : Option Settings :=
  entries.foldlM (fun s (key, value) => s.set? key value) {}

/-- The settings with the path of known symbols taken from the directory of a file. -/
def relativeTo (origin : String) (s : Settings) : Settings :=
  match Path.parent? origin with
  | some directory => { s with knownSymbols := s.knownSymbols.map (Path.join directory) }
  | none => s

def selection (s : Settings) : Except Failure Selection :=
  match Selection.ofNames? s.symbols with
  | .ok selected => .ok (selected.getD .standard)
  | .error name => .error (.unknownKind name)

def options (s : Settings) : Options where
  nullifyGlobals := s.nullifyGlobals
  keepInaccessible := s.keepInaccessible

/-- The settings of a text, found in a file. -/
def read (text origin : String) : Except Failure Settings :=
  match (Toml.read? text).bind ofEntries? with
  | none => .error (.malformed origin)
  | some s => (s.relativeTo origin).selection.map fun _ => s.relativeTo origin

end Settings

namespace KnownSymbols

/-- The kinds of symbols that a file can list. -/
def listedKinds : List SymbolKind :=
  [.functions, .classes, .interfaces, .traits, .enums, .constants]

def listed? (entries : Toml.Entries) (kind : SymbolKind) : Option (List (SymbolKind × String)) :=
  match Toml.Entries.find? entries kind.name with
  | none => some []
  | some value => value.texts?.map fun names => names.map fun name => (kind, name)

/-- The known symbols of a text, found in a file. -/
def read (text origin : String) : Except Failure KnownSymbols :=
  match (Toml.read? text).bind fun entries => listedKinds.mapM (listed? entries) with
  | none => .error (.malformed origin)
  | some lists => .ok (ofList lists.flatten)

end KnownSymbols

end Stubsmith
