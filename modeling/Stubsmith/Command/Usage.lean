import Stubsmith.Command.Line

namespace Stubsmith

def versionText : String :=
  "generate-stubs 0.4.0\n"

def usageLine : String :=
  "Usage: generate-stubs [OPTIONS] <SOURCES>...\n"

def ReportFormat.purpose : ReportFormat → String
  | .table => "Plain-text tables"
  | .json => "Pretty-printed JSON"

def ValueOption.purpose : ValueOption → String
  | .out => "Write the stubs to this file instead of stdout"
  | .header => "Text placed right below the opening <?php tag"
  | .statsFormat => "Stats output format"
  | .config => "TOML configuration file"
  | .knownSymbols => "TOML file listing symbols that already exist and need no stubs"
  | .exclude => "Glob pattern of files to leave out (repeatable)"

def Switch.purpose (long : Bool) : Switch → String
  | .force => "Overwrite the --out file if it exists"
  | .nullifyGlobals => "Replace the initial value of every global with null"
  | .keepInaccessible => "Keep private members, and protected members of final classes"
  | .stats => "Print stats instead of stubs (always printed with --out)"
  | .functions => "Include function declarations"
  | .classes => "Include class declarations"
  | .interfaces => "Include interface declarations"
  | .traits => "Include trait declarations"
  | .enums => "Include enum declarations"
  | .documentedGlobals => "Include global variables with a doc comment"
  | .undocumentedGlobals => "Include global variables without a doc comment"
  | .globals => "Include all global variables"
  | .constants => "Include constant declarations"
  | .help =>
    if long then "Print help (see a summary with '-h')" else "Print help (see more with '--help')"
  | .version => "Print version"

namespace CommandOption

/-- The blanks before what is said of an option. -/
def margin : String :=
  "          "

/-- What is said of the values that an option takes. -/
def valuesText (long : Bool) : CommandOption → String
  | value .statsFormat =>
    if long then
      "\n" ++ margin ++ "\n" ++ margin ++ "[default: table]\n\n" ++ margin ++ "Possible values:\n" ++
        margin ++ "- table: " ++ ReportFormat.table.purpose ++ "\n" ++
        margin ++ "- json:  " ++ ReportFormat.json.purpose
    else " [default: table] [possible values: table, json]"
  | _ => ""

/-- The letter of an option, or blanks in its place. -/
def letterText : CommandOption → String
  | switch s =>
    match s.letter? with
    | some letter => String.ofList ['-', letter, ',', ' ']
    | none => "    "
  | value _ => "    "

def purpose (long : Bool) : CommandOption → String
  | switch s => s.purpose long
  | value v => v.purpose

def describe (long : Bool) (o : CommandOption) : String :=
  "  " ++ o.letterText ++ o.form ++ "\n" ++ margin ++ o.purpose long ++ o.valuesText long

end CommandOption

def sourcesText (long : Bool) : String :=
  "  <SOURCES>..." ++ (if long then "\n" ++ CommandOption.margin else "  ") ++
    "Directories or files to generate stubs for\n"

def helpText (long : Bool) : String :=
  "Generate stubs for the PHP declarations in the given sources\n\n" ++ usageLine ++
    "\nArguments:\n" ++ sourcesText long ++ "\nOptions:\n" ++
    String.intercalate (if long then "\n\n" else "\n")
      (CommandOption.all.map (CommandOption.describe long)) ++ "\n"

def UsageError.text (e : UsageError) : String :=
  "error: " ++ e.message ++ "\n\n" ++ usageLine ++ "\nFor more information, try '--help'.\n"

end Stubsmith
