import Stubsmith.Files.Glob
import Stubsmith.Files.IoError

namespace Stubsmith

/-- Why directories cannot be searched. -/
inductive SearchError where
  | io (path : String) (cause : IoError)
  /-- A link leads back to a directory that it is in. -/
  | cycle (ancestor path : String)
deriving DecidableEq, Repr, Inhabited

def SearchError.message : SearchError → String
  | .io path cause => "IO error for operation on " ++ path ++ ": " ++ cause.message
  | .cycle ancestor path =>
    "File system loop found: " ++ path ++ " points to an ancestor " ++ ancestor

inductive Failure where
  | io (path : String) (cause : IoError)
  | sourceNotFound (path : String)
  | outputIsDirectory (path : String)
  | outputExists (path : String)
  | invalidPattern (pattern : String) (cause : GlobError)
  /-- A file is no TOML, or not of the form that is asked for. -/
  | malformed (path : String)
  | unknownKind (name : String)
  | search (cause : SearchError)
deriving DecidableEq, Repr, Inhabited

def Failure.message : Failure → String
  | .io path cause => "IO error on '" ++ path ++ "': " ++ cause.message
  | .sourceNotFound path => "Bad source path: '" ++ path ++ "' does not exist"
  | .outputIsDirectory path =>
    "Bad --out: '" ++ path ++ "' is a directory, please pass a file"
  | .outputExists path =>
    "The file '" ++ path ++ "' already exists, pass --force to overwrite it"
  | .invalidPattern pattern cause =>
    "Invalid exclude pattern '" ++ pattern ++ "': error parsing glob '" ++ Glob.slashed pattern ++
      "': " ++ cause.message
  | .malformed path => "Config error in '" ++ path ++ "': malformed TOML"
  | .unknownKind name => "Unknown symbol kind: " ++ name
  | .search cause => "Directory walk error: " ++ cause.message

end Stubsmith
