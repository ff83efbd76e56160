import Stubsmith.Command.Line
import Stubsmith.Command.Usage
import Stubsmith.Files.Output
import Stubsmith.Files.Sources
import Stubsmith.Settings
import Stubsmith.Stubs.Generate

namespace Stubsmith

inductive RunError where
  | failure (cause : Failure)
  | settings (path : String) (cause : Failure)
  | knownSymbols (cause : Failure)
  | output (path : String) (cause : Failure)
deriving DecidableEq, Repr, Inhabited

def RunError.message : RunError → String
  | .failure cause => cause.message
  | .settings path _ => "Failed to load config " ++ path
  | .knownSymbols _ => "Failed to load known symbols"
  | .output path _ => "Cannot write to '" ++ path ++ "'"

/-- What stands behind an error and is not in its message. -/
def RunError.cause? : RunError → Option Failure
  | .failure _ => none
  | .settings _ cause => some cause
  | .knownSymbols cause => some cause
  | .output _ cause => some cause

namespace FileSystem

variable (fs : FileSystem)

/-- What a reader makes of the text of a file. -/
def load {α : Type} (read : String → String → Except Failure α) (path : String) :
    Except Failure α :=
  match fs.readText path with
  | .ok text => read text path
  | .error cause => .error (.io path cause)

def source (path : String) : Source String where
  path := path
  contents := (fs.readText path).mapError IoError.message

end FileSystem

/-- What a run is to do, as far as the command line and the files that it names decide it. -/
structure Job where
  request : Request
  header : Option String
  /-- The paths of the sources. -/
  files : List String
deriving Inhabited

namespace CommandLine

variable (c : CommandLine)

/-- The settings that the command line names. -/
def settings (fs : FileSystem) : Except RunError Settings :=
  match c.value? .config with
  | none => .ok {}
  | some path => (fs.load Settings.read path).mapError (.settings path)

/-- The symbols to keep: those that switches select, else those of the settings. -/
def selectionOver (s : Settings) : Except RunError Selection :=
  if c.selection = .empty then s.selection.mapError .failure else .ok c.selection

def optionsOver (s : Settings) : Options where
  nullifyGlobals := s.nullifyGlobals || c.has .nullifyGlobals
  keepInaccessible := s.keepInaccessible || c.has .keepInaccessible

/-- Refuses a file to write to that may not be written. -/
def checkOutput (fs : FileSystem) : Except RunError Unit :=
  match c.value? .out with
  | none => .ok ()
  | some path => (fs.checkOutput path (c.has .force)).mapError .failure

/-- What exists already, by the file that the command line or else the settings name. -/
def environment (fs : FileSystem) (s : Settings) : Except RunError Environment :=
  match (c.value? .knownSymbols).or s.knownSymbols with
  | none => .ok .empty
  | some path =>
    ((fs.load KnownSymbols.read path).mapError .knownSymbols).map KnownSymbols.environment

def job (fs : FileSystem) : Except RunError Job := do
  let s ← c.settings fs
  let selection ← c.selectionOver s
  c.checkOutput fs
  let files ← (fs.sources (s.exclude ++ c.valuesOf .exclude) c.sources).mapError .failure
  let environment ← c.environment fs s
  return {
    request := { selection := selection, options := c.optionsOver s, environment := environment }
    header := (c.value? .header).or s.header
    files := files }

end CommandLine

def Job.result (j : Job) (parse : String → Except ParseError (List Decl)) (fs : FileSystem) :
    StubsResult :=
  j.request.generate parse (j.files.map fs.source)

/-- Runs a command line: the text that is printed, or why there is none, and the file system
afterwards. -/
def CommandLine.run (c : CommandLine) (parse : String → Except ParseError (List Decl))
    (fs : FileSystem) : Except RunError String × FileSystem :=
  match c.job fs with
  | .error e => (.error e, fs)
  | .ok j =>
    let result := j.result parse fs
    let stubs := result.print j.header
    let report := result.report c.format
    match c.value? .out with
    | none => (.ok (if c.has .stats then report else stubs), fs)
    | some path =>
      match fs.writeOutput path stubs (c.has .force) with
      | (.ok (), fs) => (.ok report, fs)
      | (.error cause, fs) => (.error (.output path cause), fs)

/-- What the caller of the program sees of it, the file system apart. -/
structure Outcome where
  code : Nat := 0
  /-- What is printed as the result. -/
  output : String := ""
  /-- What is said besides. -/
  message : String := ""
deriving DecidableEq, Repr, Inhabited

def Halt.outcome : Halt → Outcome
  | .help long => { output := helpText long }
  | .version => { output := versionText }
  | .misuse cause => { code := 2, message := cause.text }

/-- An error as it is told, with its cause in a paragraph of its own. -/
def RunError.text (e : RunError) : String :=
  "Error: " ++ e.message ++ "\n" ++
    match e.cause? with
    | some cause => "\nCaused by:\n    " ++ cause.message ++ "\n"
    | none => ""

def CommandLine.outcome (c : CommandLine) : Except RunError String → Outcome
  | .error e => { code := 1, message := e.text }
  | .ok output =>
    { output := output
      message :=
        match c.value? .out with
        | some path => "Stubs written to " ++ path ++ "\n"
        | none => "" }

def execute (arguments : List String) (parse : String → Except ParseError (List Decl))
    (fs : FileSystem) : Outcome × FileSystem :=
  match CommandLine.read arguments with
  | .error halt => (halt.outcome, fs)
  | .ok c =>
    let (done, fs) := c.run parse fs
    (c.outcome done, fs)

end Stubsmith
