import CodeAtlas.CommandLine.Run

/-! The program: its files, its environment and its streams are those of the operating system. -/

namespace CodeAtlas.Program

def fileError (e : IO.Error) : FileError :=
  match e with
  | .noFileOrDirectory .. => .notFound
  | .alreadyExists .. => .alreadyExists
  | .inappropriateType _ 21 _ => .isADirectory
  | .inappropriateType _ _ _ => .notADirectory
  | e => .other (toString e)

def attempt {β : Type} (action : IO β) : IO (Except FileError β) := do
  match ← action.toBaseIO with
  | .ok b => return .ok b
  | .error e => return .error (fileError e)

def isOfType (type : IO.FS.FileType) (path : String) : IO Bool := do
  let path := (← IO.currentDir) / path
  match ← path.metadata.toBaseIO with
  | .ok found => return found.type == type
  | .error _ => return false

instance : MonadFiles IO where
  readBytes path := attempt (IO.FS.readBinFile path)
  writeText path text := attempt (IO.FS.writeFile path text)
  createDirectory path := attempt (IO.FS.createDir path)
  isFile := isOfType .file
  isDirectory := isOfType .dir
  currentDirectory := return (← IO.currentDir).toString

def binding? (entry : List Char) : Option (String × String) :=
  match entry.span (· ≠ '=') with
  | (name, _ :: value) => some (String.ofList name, String.ofList value)
  | _ => none

def environment : IO (List (String × String)) := do
  match ← attempt (IO.FS.readBinFile "/proc/self/environ") with
  | .error _ => return []
  | .ok bytes =>
    let entries := bytes.toList.splitOn 0
    return entries.filterMap fun entry =>
      (String.fromUTF8? ⟨entry.toArray⟩).bind fun text => binding? text.toList

end CodeAtlas.Program

def main (args : List String) : IO UInt32 := do
  let outcome ← CodeAtlas.CommandLine.run (← CodeAtlas.Program.environment) args
  IO.print outcome.output
  IO.eprint outcome.diagnostics
  return outcome.code.toUInt32
