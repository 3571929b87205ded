import CodeAtlas.Embedding.Record
import CodeAtlas.Embedding.Store

/-! Stores kept in memory or in a file, which is written only when asked for. -/

namespace CodeAtlas.VectorStore

variable {κ : Type} [VectorComponent κ] {m : Type → Type} [Monad m] [MonadFiles m]

/-- Reads the store of a file; without a file it is empty. -/
def open? (path : String) : m (Except EmbeddingError (VectorStore κ)) := do
  if !(← Files.pathExists path) then return .ok {}
  match ← Files.readText path with
  | .error e => return .error (.file path e)
  | .ok text => return match Record.parse text with
    | .error fault => .error (.records fault)
    | .ok entries => ofList entries

def save (s : VectorStore κ) (path : String) : m (Except EmbeddingError Unit) := do
  let made ← match Path.parent? path with
    | none => pure (.ok ())
    | some parent => if parent.isEmpty then pure (.ok ()) else Files.createDirectories parent
  match made with
  | .error e => return .error (.file path e)
  | .ok () =>
    return (← MonadFiles.writeText path (Record.write s.embeddings)).mapError (.file path)

def flush (s : VectorStore κ) (path : Option String) : m (Except EmbeddingError Unit) :=
  match path with
  | some path => s.save path
  | none => return .ok ()

end CodeAtlas.VectorStore
