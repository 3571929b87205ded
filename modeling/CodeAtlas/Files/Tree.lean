import CodeAtlas.Files.Basic

/-! A file system held in memory: files and directories by their component lists, and a current
directory. -/

namespace CodeAtlas

inductive FileEntry where
  | file (content : ByteArray)
  | directory

structure FileTree where
  /-- The root directory is always there and has no entry. -/
  entries : List (List String × FileEntry) := []
  current : List String := []

namespace FileTree

def entry? (t : FileTree) (location : List String) : Option FileEntry :=
  if location.isEmpty then some .directory else t.entries.lookup location

/-- Follows path components. Each one starts from a directory that is there; the last need not lead
to anything. -/
def walk (t : FileTree) (location : List String) : List String → Except FileError (List String)
  | [] => .ok location
  | part :: rest =>
    match t.entry? location with
    | none => .error .notFound
    | some (.file _) => .error .notADirectory
    | some .directory =>
      if part.isEmpty || part = "." then t.walk location rest
      else if part = ".." then t.walk location.dropLast rest
      else if Path.componentLimit < part.utf8ByteSize then .error .nameTooLong
      else t.walk (location ++ [part]) rest

def locate (t : FileTree) (path : String) : Except FileError (List String) := do
  Path.check path
  let parts := (path.toList.splitOn '/').map String.ofList
  t.walk (if Path.isAbsolute path then [] else t.current) parts

def find? (t : FileTree) (path : String) : Except FileError (Option FileEntry) :=
  (t.locate path).map t.entry?

def put (t : FileTree) (location : List String) (e : FileEntry) : FileTree :=
  { t with entries := (location, e) :: t.entries.filter (·.1 ≠ location) }

def read (t : FileTree) (path : String) : Except FileError ByteArray :=
  match t.find? path with
  | .error e => .error e
  | .ok none => .error .notFound
  | .ok (some .directory) => .error .isADirectory
  | .ok (some (.file content)) => .ok content

/-- Writes a file. A path that ends in a slash could only mean a directory. -/
def write (t : FileTree) (path : String) (content : ByteArray) : Except FileError FileTree :=
  match Path.check path *> t.locate (Path.withoutSlashes path) with
  | .error e => .error e
  | .ok location => match t.entry? location with
    | some .directory => .error .isADirectory
    | _ =>
      if path.endsWith "/" then .error .isADirectory
      else .ok (t.put location (.file content))

def makeDirectory (t : FileTree) (path : String) : Except FileError FileTree :=
  match t.locate path with
  | .error e => .error e
  | .ok location => match t.entry? location with
    | some _ => .error .alreadyExists
    | none => .ok (t.put location .directory)

def isFile (t : FileTree) (path : String) : Bool :=
  match t.find? path with
  | .ok (some (.file _)) => true
  | _ => false

def isDirectory (t : FileTree) (path : String) : Bool :=
  match t.find? path with
  | .ok (some .directory) => true
  | _ => false

def enter (t : FileTree) (path : String) : FileTree :=
  match t.locate path with
  | .ok location => if t.isDirectory path then { t with current := location } else t
  | .error _ => t

def update (f : FileTree → Except FileError FileTree) : StateM FileTree (Except FileError Unit) :=
  fun t => match f t with
    | .ok t' => (.ok (), t')
    | .error e => (.error e, t)

instance : MonadFiles (StateM FileTree) where
  readBytes path := return (← get).read path
  writeText path text := update fun t => t.write path text.toUTF8
  createDirectory path := update fun t => t.makeDirectory path
  isFile path := return (← get).isFile path
  isDirectory path := return (← get).isDirectory path
  currentDirectory := return Path.ofComponents true (← get).current

def seed (t : FileTree) (path : String) (content : Option ByteArray) : FileTree :=
  let directory (path : String) (t : FileTree) : FileTree :=
    (Files.createDirectories (m := StateM FileTree) path t).2
  match content with
  | none => directory path t
  | some bytes =>
    let t := directory ((Path.parent? path).getD "") t
    ((t.write path bytes).toOption).getD t

end FileTree

end CodeAtlas
