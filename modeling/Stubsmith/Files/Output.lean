import Stubsmith.Failure
import Stubsmith.Files.FileSystem

namespace Stubsmith.FileSystem

/-- The output may not be a directory, and it may be there before only if that is allowed. -/
def checkOutput (fs : FileSystem) (path : String) (force : Bool) : Except Failure Unit :=
  if fs.isDirectory path then .error (.outputIsDirectory path)
  else if fs.exists? path && !force then .error (.outputExists path)
  else .ok ()

/-- An operation on a path, with the path in its failure. -/
def failingAt (path : String) (done : Except IoError Unit × FileSystem) :
    Except Failure Unit × FileSystem :=
  match done with
  | (.ok (), fs) => (.ok (), fs)
  | (.error cause, fs) => (.error (.io path cause), fs)

/-- Writes stubs to a path, in directories that are made where they are missing. -/
def writeOutput (path text : String) (force : Bool) (fs : FileSystem) :
    Except Failure Unit × FileSystem :=
  match fs.checkOutput path force with
  | .error failure => (.error failure, fs)
  | .ok () =>
    let parent := (Path.parent? path).getD ""
    match failingAt parent (fs.makeDirectories parent) with
    | (.error failure, fs) => (.error failure, fs)
    | (.ok (), fs) => failingAt path (fs.writeFile path text.toUTF8)

end Stubsmith.FileSystem
