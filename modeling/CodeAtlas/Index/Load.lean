import CodeAtlas.Files.Basic
import CodeAtlas.Index.Decode
import CodeAtlas.Source.Resolver

/-! Reading an index file, and the module texts that an index leaves to the files of its project. -/

namespace CodeAtlas

inductive IndexError where
  | unreadable (path : String) (cause : FileError)
  | undecodable (path : String)
  deriving Repr, DecidableEq

def IndexError.message : IndexError → String
  | .unreadable path cause => "Failed to read index " ++ path ++ ": " ++ cause.message
  | .undecodable path => "Failed to decode index " ++ path

variable {m : Type → Type} [Monad m] [MonadFiles m]

def Index.load (path : String) : m (Except IndexError Index) := do
  match ← MonadFiles.readBytes path with
  | .error e => return .error (.unreadable path e)
  | .ok bytes => return match Index.decode? bytes.toList with
    | some x => .ok x
    | none => .error (.undecodable path)

namespace SourceIndex

def readTexts (root : String) : List Document → m (List (String × String))
  | [] => return []
  | d :: rest => do
    if (embedded? d).isSome then readTexts root rest
    else match ← Files.readText (Path.join root d.path) with
      | .error _ => readTexts root rest
      | .ok text => return (d.path, text) :: (← readTexts root rest)

/-- The source index of an index whose missing texts are files below `root`. -/
def load (root : Option String) (x : Index) : m SourceIndex := do
  let texts ← match root with
    | none => pure []
    | some root => readTexts root x.documents
  return build (fun d => (embedded? d).or (texts.lookup d.path)) x

end SourceIndex

end CodeAtlas
