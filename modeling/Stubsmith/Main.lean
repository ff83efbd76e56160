import Stubsmith.Command.Run
import Stubsmith.Syntax.Dump

namespace Stubsmith

partial def readLines (input : IO.FS.Stream) : IO (List String) := do
  let line ← input.getLine
  if line.isEmpty then return []
  return Text.lines line ++ (← readLines input)

/-- The file system with what is at a path. What cannot be read as a file is a directory. -/
def addListed (fs : FileSystem) (path : String) : IO FileSystem := do
  try
    let contents ← IO.FS.readBinFile path
    let (_, fs) := fs.makeDirectories ((Path.parent? path).getD "")
    return (fs.writeFile path contents).2
  catch _ =>
    return (fs.makeDirectories path).2

/-- The file system of some paths, with the working directory that the program is in. -/
def readFileSystem (paths : List String) : IO FileSystem := do
  let working := (← IO.currentDir).toString
  let (_, fs) := ({} : FileSystem).makeDirectories working
  paths.foldlM addListed { fs with working := (Path.pieces working).filter (· != "") }

/-- The texts of some files that have their trees beside them, with these trees. -/
def treesBeside (fs : FileSystem) (paths : List String) : List (String × Syntax.Tree) :=
  paths.filterMap fun path => do
    let dump ← (fs.readText (path ++ ".tree")).toOption
    return (← (fs.readText path).toOption, ← Syntax.Tree.ofText? dump)

def writeBack (fs : FileSystem) (path : String) : IO Unit := do
  match fs.readText path, Path.parent? path with
  | .ok text, some parent =>
    if parent != "" then IO.FS.createDirAll parent
    IO.FS.writeFile path text
  | _, _ => return

/-- Tells an outcome, and gives its code back. -/
def Outcome.tell (o : Outcome) : IO UInt32 := do
  IO.print o.output
  IO.eprint o.message
  return o.code.toUInt32

/-- Runs the program with arguments. -/
def runProgram (arguments : List String) : IO UInt32 := do
  match CommandLine.read arguments with
  | .error halt => halt.outcome.tell
  | .ok c =>
    let paths ← readLines (← IO.getStdin)
    let fs ← readFileSystem paths
    let (done, after) := c.run (Syntax.parseAmong (treesBeside fs paths)) fs
    if let (.ok _, some path) := (done, c.value? .out) then writeBack after path
    (c.outcome done).tell

end Stubsmith

def main (arguments : List String) : IO UInt32 :=
  Stubsmith.runProgram arguments
