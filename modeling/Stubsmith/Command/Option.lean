import Stubsmith.Symbol.Selection

namespace Stubsmith

inductive Switch where
  | force
  | nullifyGlobals
  | keepInaccessible
  | stats
  | functions
  | classes
  | interfaces
  | traits
  | enums
  | documentedGlobals
  | undocumentedGlobals
  | globals
  | constants
  | help
  | version
deriving DecidableEq, Repr, Inhabited

inductive ValueOption where
  | out
  | header
  | statsFormat
  | config
  | knownSymbols
  | exclude
deriving DecidableEq, Repr, Inhabited

/-- A switch stands alone; a value option takes the argument behind it, or what stands behind an
equals sign in its own argument. -/
inductive CommandOption where
  | switch (s : Switch)
  | value (v : ValueOption)
deriving DecidableEq, Repr, Inhabited

def Switch.name : Switch → String
  | force => "force"
  | nullifyGlobals => "nullify-globals"
  | keepInaccessible => "include-inaccessible-class-nodes"
  | stats => "stats"
  | functions => "functions"
  | classes => "classes"
  | interfaces => "interfaces"
  | traits => "traits"
  | enums => "enums"
  | documentedGlobals => "documented-globals"
  | undocumentedGlobals => "undocumented-globals"
  | globals => "globals"
  | constants => "constants"
  | help => "help"
  | version => "version"

/-- The letter that may stand for the name. -/
def Switch.letter? : Switch → Option Char
  | help => some 'h'
  | version => some 'V'
  | _ => none

def Switch.selection : Switch → Selection
  | functions => { functions := true }
  | classes => { classes := true }
  | interfaces => { interfaces := true }
  | traits => { traits := true }
  | enums => { enums := true }
  | documentedGlobals => { documentedGlobals := true }
  | undocumentedGlobals => { undocumentedGlobals := true }
  | globals => { documentedGlobals := true, undocumentedGlobals := true }
  | constants => { constants := true }
  | _ => .empty

namespace ValueOption

def name : ValueOption → String
  | out => "out"
  | header => "header"
  | statsFormat => "stats-format"
  | config => "config"
  | knownSymbols => "known-symbols"
  | exclude => "exclude"

/-- What stands for the value where the option is described. -/
def placeholder : ValueOption → String
  | out => "OUT"
  | header => "HEADER"
  | statsFormat => "STATS_FORMAT"
  | config => "CONFIG"
  | knownSymbols => "KNOWN_SYMBOLS"
  | exclude => "EXCLUDE"

/-- Whether the value is a path, which is never empty. -/
def isPath : ValueOption → Bool
  | out => true
  | config => true
  | knownSymbols => true
  | _ => false

def isRepeatable : ValueOption → Bool
  | exclude => true
  | _ => false

end ValueOption

namespace CommandOption

def all : List CommandOption :=
  [.value .out, .switch .force, .value .header, .switch .nullifyGlobals, .switch .keepInaccessible,
    .switch .stats, .value .statsFormat, .switch .functions, .switch .classes, .switch .interfaces,
    .switch .traits, .switch .enums, .switch .documentedGlobals, .switch .undocumentedGlobals,
    .switch .globals, .switch .constants, .value .config, .value .knownSymbols, .value .exclude,
    .switch .help, .switch .version]

def name : CommandOption → String
  | switch s => s.name
  | value v => v.name

/-- The option as it is written, with what stands for its value. -/
def form : CommandOption → String
  | switch s => "--" ++ s.name
  | value v => "--" ++ v.name ++ " <" ++ v.placeholder ++ ">"

def ofName? (name : String) : Option CommandOption :=
  all.find? (·.name == name)

def ofLetter? (letter : Char) : Option CommandOption :=
  all.find? fun o =>
    match o with
    | switch s => s.letter? == some letter
    | value _ => false

end CommandOption

end Stubsmith
