import CodeAtlas.Files.Basic
import CodeAtlas.Settings.Environment
import CodeAtlas.Settings.Extract
import CodeAtlas.Settings.Printer
import CodeAtlas.Toml.Reader

/-! Settings files: where they are looked for, reading them below the environment, and
writing them. -/

namespace CodeAtlas

open MonadFiles

inductive SettingsWriteError where
  | noDirectory
  | alreadyThere
  | outOfRange
  | file (cause : FileError)
  deriving Repr, DecidableEq

def SettingsWriteError.message : SettingsWriteError → String
  | .noDirectory => "Invalid path"
  | .alreadyThere => "Configuration file already exists. Use --force to overwrite"
  | .outOfRange => "out-of-range value for u64 type"
  | .file cause => cause.message

namespace Settings

variable {m : Type → Type} [Monad m] [MonadFiles m]

def directory : String := ".symdex"

def fileName : String := "settings.toml"

def fileIn (dir : String) : String := Path.join (Path.join dir directory) fileName

def firstFile : List String → m (Option String)
  | [] => return none
  | path :: rest => do
    if ← isFile path then return some path else firstFile rest

/-- Finds a settings file. A relative path is tried in the current directory and in those
around it. -/
def find? (path : String) : m (Option String) := do
  if Path.isAbsolute path then firstFile [path]
  else firstFile ((Path.ancestors (← currentDirectory)).map fun dir => Path.join dir path)

def readFields (path : String) : m (Except SettingError (List (String × Toml.Value))) := do
  match ← find? path with
  | none => return .ok []
  | some path => match ← Files.readText path with
    | .error _ => return .error ⟨.unreadable, []⟩
    | .ok text => return match Toml.parse? text with
      | some fields => .ok fields
      | none => .error ⟨.unreadable, []⟩

def loadFrom (environment : List (String × String)) (path : String) :
    m (Except SettingError Settings) := do
  return (← readFields path) >>= fun fields =>
    ofValue (Toml.Value.overlay (.table fields) (Environment.layer environment))

def firstWorkspace : List String → m (Option String)
  | [] => return none
  | dir :: rest => do
    if ← isDirectory (Path.join dir directory) then return some dir else firstWorkspace rest

def workspaceRoot : m (Option String) := do firstWorkspace (Path.ancestors (← currentDirectory))

def load (environment : List (String × String)) : m (Except SettingError Settings) := do
  loadFrom environment (fileIn ((← workspaceRoot).getD ""))

def text? (s : Settings) : Except SettingsWriteError String :=
  match s.write? with
  | some text => .ok text
  | none => .error .outOfRange

def save (s : Settings) (path : String) : m (Except SettingsWriteError Unit) := do
  match Path.parent? path with
  | none => return .error .noDirectory
  | some parent =>
    let made ← if parent.isEmpty then pure (.ok ()) else Files.createDirectories parent
    match made with
    | .error e => return .error (.file e)
    | .ok () => match s.text? with
      | .error e => return .error e
      | .ok text => return (← writeText path text).mapError .file

/-- Writes the standard settings for a directory, over those that are there only if forced: the path
of the file. -/
def init (dir : String) (force : Bool) : m (Except SettingsWriteError String) := do
  let path := fileIn dir
  if !force then
    if ← Files.pathExists path then return .error .alreadyThere
  return (← ({} : Settings).save path).map fun _ => path

end Settings

end CodeAtlas
