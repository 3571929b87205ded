/-! The files that the program reads and writes, as operations of a monad. -/

namespace CodeAtlas

inductive FileError where
  | notFound
  | alreadyExists
  | notADirectory
  | isADirectory
  | invalidText
  | nameTooLong
  | nulInName
  | other (text : String)
  deriving Repr, DecidableEq

def FileError.message : FileError → String
  | .notFound => "No such file or directory (os error 2)"
  | .alreadyExists => "File exists (os error 17)"
  | .notADirectory => "Not a directory (os error 20)"
  | .isADirectory => "Is a directory (os error 21)"
  | .invalidText => "stream did not contain valid UTF-8"
  | .nameTooLong => "File name too long (os error 36)"
  | .nulInName => "file name contained an unexpected NUL byte"
  | .other text => text

class MonadFiles (m : Type → Type) where
  readBytes : String → m (Except FileError ByteArray)
  writeText : String → String → m (Except FileError Unit)
  createDirectory : String → m (Except FileError Unit)
  isFile : String → m Bool
  isDirectory : String → m Bool
  currentDirectory : m String

namespace Path

def componentLimit : Nat := 255

def lengthLimit : Nat := 4095

def check (path : String) : Except FileError Unit :=
  if path.contains '\x00' then .error .nulInName
  else if path.isEmpty then .error .notFound
  else if lengthLimit < path.utf8ByteSize then .error .nameTooLong
  else .ok ()

def isAbsolute (path : String) : Bool := path.startsWith "/"

/-- The components of a path: no empty ones, and no `.` but in front. -/
def components (path : String) : List String :=
  let raw := (path.toList.splitOn '/').map String.ofList
  let kept := (raw.drop 1).filter fun c => !c.isEmpty && c != "."
  match raw.head? with
  | some first => if first.isEmpty then kept else first :: kept
  | none => kept

def ofComponents (absolute : Bool) (parts : List String) : String :=
  (if absolute then "/" else "") ++ "/".intercalate parts

def withoutSlashes (path : String) : String :=
  let kept := (path.toList.reverse.dropWhile (· = '/')).reverse
  if kept.isEmpty && isAbsolute path then "/" else String.ofList kept

/-- `path` below `directory`, unless it is absolute. -/
def join (directory path : String) : String :=
  if isAbsolute path || directory.isEmpty then path
  else if directory.endsWith "/" then directory ++ path
  else directory ++ "/" ++ path

/-- The path without its last component; `none` for the empty path and the root. -/
def parent? (path : String) : Option String :=
  match components path with
  | [] => none
  | parts => some (ofComponents (isAbsolute path) parts.dropLast)

def ancestors (path : String) : List String :=
  let parts := components path
  (List.range (parts.length + 1)).map fun k =>
    ofComponents (isAbsolute path) (parts.take (parts.length - k))

end Path

namespace Files

variable {m : Type → Type} [Monad m] [MonadFiles m]

open MonadFiles

def readText (path : String) : m (Except FileError String) := do
  match ← readBytes path with
  | .error e => return .error e
  | .ok bytes => return match String.fromUTF8? bytes with
    | some text => .ok text
    | none => .error .invalidText

def pathExists (path : String) : m Bool := do
  if ← isFile path then return true else isDirectory path

def ensureDirectory (path : String) : m (Except FileError Unit) := do
  match ← createDirectory path with
  | .ok () => return .ok ()
  | .error e => if ← isDirectory path then return .ok () else return .error e

/-- Creates a directory and those around it that are missing; `fuel` bounds how many. -/
def createDirectoriesWithin : Nat → String → m (Except FileError Unit)
  | 0, path => ensureDirectory path
  | fuel + 1, path => do
    if path.isEmpty then return .ok ()
    match ← ensureDirectory path with
    | .error .notFound =>
      match Path.parent? path with
      | none => return .error .notFound
      | some parent =>
        match ← createDirectoriesWithin fuel parent with
        | .error e => return .error e
        | .ok () => ensureDirectory path
    | outcome => return outcome

def createDirectories (path : String) : m (Except FileError Unit) :=
  createDirectoriesWithin (Path.components path).length path

end Files

end CodeAtlas
