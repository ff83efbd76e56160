import Stubsmith.Command.Option
import Stubsmith.Stubs.Report

namespace Stubsmith

/-- What is wrong with a command line. -/
inductive UsageError where
  | unknown (argument : String)
  | repeated (option : CommandOption)
  | valueMissing (option : ValueOption)
  | valueUnneeded (s : Switch) (value : String)
  | formatUnknown (value : String)
  | sourceEmpty
  | sourcesMissing
deriving DecidableEq, Repr, Inhabited

def UsageError.message : UsageError → String
  | .unknown argument => "unexpected argument '" ++ argument ++ "' found"
  | .repeated option => "the argument '" ++ option.form ++ "' cannot be used multiple times"
  | .valueMissing option =>
    "a value is required for '" ++ (CommandOption.value option).form ++ "' but none was supplied"
  | .valueUnneeded s value =>
    "unexpected value '" ++ value ++ "' for '" ++ (CommandOption.switch s).form ++
      "' found; no more were expected"
  | .formatUnknown value =>
    "invalid value '" ++ value ++ "' for '" ++ (CommandOption.value .statsFormat).form ++ "'"
  | .sourceEmpty => "a value is required for '<SOURCES>...' but none was supplied"
  | .sourcesMissing => "the following required arguments were not provided:\n  <SOURCES>..."

/-- Why the reading of a command line ends without a run. -/
inductive Halt where
  /-- A long or a short description of the options is asked for. -/
  | help (long : Bool)
  | version
  | misuse (cause : UsageError)
deriving DecidableEq, Repr, Inhabited

/-- What an argument is by its form. -/
inductive Argument where
  /-- Two hyphens alone, behind which every argument is a source. -/
  | separator
  | long (name : String) (value : Option String)
  /-- Letters behind one hyphen. -/
  | short (first : Char)
  | plain
deriving DecidableEq, Repr, Inhabited

/-- The form of an argument. A hyphen alone is plain. -/
def Argument.of (argument : String) : Argument :=
  match argument.toList with
  | ['-', '-'] => .separator
  | '-' :: '-' :: cs =>
    match Text.splitAtFirst? '=' cs with
    | some (name, value) => .long (String.ofList name) (some (String.ofList value))
    | none => .long (String.ofList cs) none
  | '-' :: c :: _ => .short c
  | _ => .plain

structure CommandLine where
  sources : List String := []
  switches : List Switch := []
  /-- Options with their values, in the order in which they are given. -/
  values : List (ValueOption × String) := []
deriving DecidableEq, Repr, Inhabited

namespace CommandLine

variable (c : CommandLine)

def has (s : Switch) : Bool :=
  c.switches.contains s

def value? (option : ValueOption) : Option String :=
  c.values.lookup option

def valuesOf (option : ValueOption) : List String :=
  (c.values.filter (·.1 == option)).map Prod.snd

def format : ReportFormat :=
  ((c.value? .statsFormat).bind ReportFormat.ofName?).getD .table

def selection : Selection :=
  c.switches.foldl (fun s flag => s.union flag.selection) .empty

def addSource (source : String) : Except Halt CommandLine :=
  if source = "" then .error (.misuse .sourceEmpty)
  else .ok { c with sources := c.sources ++ [source] }

/-- The command line with a switch, which may be given once. Help and version are answered as soon
as they are read. -/
def addSwitch (s : Switch) : Except Halt CommandLine :=
  match s with
  | .help => .error (.help true)
  | .version => .error .version
  | s =>
    if c.has s then .error (.misuse (.repeated (.switch s)))
    else .ok { c with switches := c.switches ++ [s] }

def addValue (option : ValueOption) (value : String) : Except Halt CommandLine :=
  if !option.isRepeatable && (c.value? option).isSome then
    .error (.misuse (.repeated (.value option)))
  else if option.isPath && value = "" then .error (.misuse (.valueMissing option))
  else if option = .statsFormat && (ReportFormat.ofName? value).isNone then
    .error (.misuse (.formatUnknown value))
  else .ok { c with values := c.values ++ [(option, value)] }

/-- The command line with what a letter stands for. Only help and version have a letter, so that
nothing behind it is looked at. -/
def addLetter (letter : Char) : Except Halt CommandLine :=
  match CommandOption.ofLetter? letter with
  | some (.switch .help) => .error (.help false)
  | some (.switch s) => c.addSwitch s
  | _ => .error (.misuse (.unknown (String.ofList ['-', letter])))

/-- Reads arguments behind those that a command line holds already. -/
def readFrom (c : CommandLine) : List String → Except Halt CommandLine
  | [] => .ok c
  | argument :: rest =>
    match Argument.of argument with
    | .separator => rest.foldlM addSource c
    | .plain => do readFrom (← c.addSource argument) rest
    | .short letter => do readFrom (← c.addLetter letter) rest
    | .long name value =>
      match CommandOption.ofName? name, value with
      | none, _ => .error (.misuse (.unknown ("--" ++ name)))
      | some (.switch s), none => do readFrom (← c.addSwitch s) rest
      | some (.switch s), some value => .error (.misuse (.valueUnneeded s value))
      | some (.value option), some value => do readFrom (← c.addValue option value) rest
      | some (.value option), none =>
        match rest with
        | value :: rest =>
          if Argument.of value = .plain then do readFrom (← c.addValue option value) rest
          else .error (.misuse (.valueMissing option))
        | [] => .error (.misuse (.valueMissing option))

def read (arguments : List String) : Except Halt CommandLine := do
  let c ← readFrom {} arguments
  if c.sources.isEmpty then throw (.misuse .sourcesMissing)
  return c

end CommandLine

end Stubsmith
