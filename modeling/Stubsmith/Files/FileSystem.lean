import Stubsmith.Files.Entry
import Stubsmith.Files.IoError
import Stubsmith.Files.Path

namespace Stubsmith

/-- A tree and the location that relative paths start from. -/
structure FileSystem where
  root : Entry := .directory []
  working : Location := []
deriving Inhabited

inductive Spot where
  | present (at_ : Location) (entry : Entry)
  /-- Nothing is there, but its directory exists. The flag says whether a slash stands behind. -/
  | vacant (parent : Location) (name : String) (slash : Bool)
deriving Inhabited

namespace FileSystem

def nameLimit : Nat := 255

/-- The bytes of a path that are too many. -/
def pathLimit : Nat := 4096

def linkLimit : Nat := 40

/-- Whether pieces are no more than slashes at the end of a path. -/
def isEnd (pieces : List String) : Bool :=
  pieces.all (· == "")

/-- Follows pieces of a path from a directory. A link goes to `onLink`, with its location, its
target and the pieces behind it, unless it stands last and shall be taken as it is. -/
def follow (root : Entry) (onLink : Location → String → List String → Except IoError Spot)
    (throughLast : Bool) : Location → List String → Except IoError Spot
  | here, [] =>
    match root.get? here with
    | some e => .ok (.present here e)
    | none => .error .notFound
  | here, piece :: rest =>
    if piece = "" || piece = "." then follow root onLink throughLast here rest
    else if piece = ".." then follow root onLink throughLast here.dropLast rest
    else if nameLimit < piece.utf8ByteSize then .error .nameTooLong
    else
      match root.get? (here ++ [piece]) with
      | none => if isEnd rest then .ok (.vacant here piece !rest.isEmpty) else .error .notFound
      | some (.directory _) => follow root onLink throughLast (here ++ [piece]) rest
      | some (.link target) =>
        if isEnd rest && !throughLast then .ok (.present (here ++ [piece]) (.link target))
        else onLink here target rest
      | some (.file contents) =>
        if rest.isEmpty then .ok (.present (here ++ [piece]) (.file contents))
        else .error .notDirectory

def followLinks (root : Entry) (throughLast : Bool) :
    Nat → Location → List String → Except IoError Spot
  | 0, here, pieces => follow root (fun _ _ _ => .error .tooManyLinks) throughLast here pieces
  | links + 1, here, pieces =>
    follow root (fun here target rest =>
      if target = "" then .error .notFound
      else
        followLinks root throughLast links (if Path.isAbsolute target then [] else here)
          (Path.pieces target ++ rest)) throughLast here pieces

/-- Where a path leads; a link at its end is followed or taken as it is. -/
def locate (fs : FileSystem) (throughLast : Bool) (path : String) : Except IoError Spot :=
  if path = "" then .error .notFound
  else if path.toList.contains '\x00' then .error .nulInPath
  else if pathLimit ≤ path.utf8ByteSize then .error .nameTooLong
  else
    followLinks fs.root throughLast linkLimit (if Path.isAbsolute path then [] else fs.working)
      (Path.pieces path)

def find (fs : FileSystem) (path : String) : Except IoError (Location × Entry) :=
  match fs.locate true path with
  | .ok (.present location e) => .ok (location, e)
  | .ok (.vacant ..) => .error .notFound
  | .error e => .error e

def exists? (fs : FileSystem) (path : String) : Bool :=
  (fs.find path).isOk

def isDirectory (fs : FileSystem) (path : String) : Bool :=
  match fs.find path with
  | .ok (_, .directory _) => true
  | _ => false

def isFile (fs : FileSystem) (path : String) : Bool :=
  match fs.find path with
  | .ok (_, .file _) => true
  | _ => false

def readText (fs : FileSystem) (path : String) : Except IoError String :=
  match fs.find path with
  | .ok (_, .file contents) =>
    match String.fromUTF8? contents with
    | some text => .ok text
    | none => .error .notText
  | .ok _ => .error .isDirectory
  | .error e => .error e

def put (fs : FileSystem) (location : Location) (e : Entry) : FileSystem :=
  { fs with root := Entry.put e location fs.root }

/-- Makes a directory where nothing is. -/
def makeDirectory (path : String) (fs : FileSystem) : Except IoError Unit × FileSystem :=
  match fs.locate false path with
  | .ok (.vacant parent name _) => (.ok (), fs.put (parent ++ [name]) (.directory []))
  | .ok (.present ..) => (.error .alreadyExists, fs)
  | .error e => (.error e, fs)

def makeLink (path target : String) (fs : FileSystem) : Except IoError Unit × FileSystem :=
  match fs.locate false path with
  | .ok (.vacant parent name _) => (.ok (), fs.put (parent ++ [name]) (.link target))
  | .ok (.present ..) => (.error .alreadyExists, fs)
  | .error e => (.error e, fs)

def ensureDirectory (path : String) (fs : FileSystem) : Except IoError Unit × FileSystem :=
  match fs.makeDirectory path with
  | (.ok (), fs) => (.ok (), fs)
  | (.error e, fs) => if fs.isDirectory path then (.ok (), fs) else (.error e, fs)

/-- Makes a directory and, where it has to, those that it is to be in. The number bounds how many
that can be. -/
def makeDirectoriesWithin : Nat → String → FileSystem → Except IoError Unit × FileSystem
  | 0, _, fs => (.ok (), fs)
  | more + 1, path, fs =>
    if path = "" then (.ok (), fs)
    else
      match fs.makeDirectory path, Path.parent? path with
      | (.error .notFound, fs), some parent =>
        match makeDirectoriesWithin more parent fs with
        | (.ok (), fs) => fs.ensureDirectory path
        | failed => failed
      | _, _ => fs.ensureDirectory path

/-- Makes a directory with all that it is to be in. -/
def makeDirectories (path : String) (fs : FileSystem) : Except IoError Unit × FileSystem :=
  makeDirectoriesWithin path.length path fs

def dropFinalSlashes (path : String) : String :=
  String.ofList (path.toList.reverse.dropWhile (· == '/')).reverse

/-- Writes a file, which is made if nothing is there. A path that ends with a slash names none. -/
def writeFile (path : String) (contents : ByteArray) (fs : FileSystem) :
    Except IoError Unit × FileSystem :=
  if path.toList.getLast? == some '/' then
    match fs.locate false (dropFinalSlashes path) with
    | .ok _ => (.error .isDirectory, fs)
    | .error e => (.error (if dropFinalSlashes path = "" then .isDirectory else e), fs)
  else
    match fs.locate true path with
    | .ok (.present location (.file _)) => (.ok (), fs.put location (.file contents))
    | .ok (.present ..) => (.error .isDirectory, fs)
    | .ok (.vacant parent name false) => (.ok (), fs.put (parent ++ [name]) (.file contents))
    | .ok (.vacant _ _ true) => (.error .isDirectory, fs)
    | .error e => (.error e, fs)

end FileSystem

end Stubsmith
