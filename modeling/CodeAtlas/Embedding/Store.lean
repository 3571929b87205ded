import CodeAtlas.Embedding.Basic

/-! Embeddings by key, in ascending order of the keys. -/

namespace CodeAtlas

variable {κ : Type}

structure VectorStore (κ : Type) where
  entries : List (EmbeddingKey × Embedding κ) := []

namespace VectorStore

def get? (s : VectorStore κ) (key : EmbeddingKey) : Option (Embedding κ) := s.entries.lookup key

def contains (s : VectorStore κ) (key : EmbeddingKey) : Bool := (s.get? key).isSome

def size (s : VectorStore κ) : Nat := s.entries.length

def embeddings (s : VectorStore κ) : List (Embedding κ) := s.entries.map (·.2)

def place (key : EmbeddingKey) (e : Embedding κ) :
    List (EmbeddingKey × Embedding κ) → List (EmbeddingKey × Embedding κ)
  | [] => [(key, e)]
  | (k, x) :: rest =>
    if key.before k then (key, e) :: (k, x) :: rest else (k, x) :: place key e rest

def add (s : VectorStore κ) (e : Embedding κ) : Except EmbeddingError (VectorStore κ) :=
  if s.contains e.key then .error (.duplicateKey e.key) else .ok ⟨place e.key e s.entries⟩

def update (s : VectorStore κ) (e : Embedding κ) : Except EmbeddingError (VectorStore κ) :=
  if s.contains e.key then
    .ok ⟨s.entries.map fun (k, x) => (k, if k = e.key then e else x)⟩
  else .error (.missingKey e.key)

def discard (s : VectorStore κ) (key : EmbeddingKey) :
    Except EmbeddingError (Embedding κ × VectorStore κ) :=
  match s.get? key with
  | some e => .ok (e, ⟨s.entries.filter (·.1 ≠ key)⟩)
  | none => .error (.missingKey key)

def ofList (es : List (Embedding κ)) : Except EmbeddingError (VectorStore κ) :=
  es.foldlM add {}

def inSlot (s : VectorStore κ) (slot : EmbeddingSlot) : List (Embedding κ) :=
  s.embeddings.filter fun e => e.slot = slot

end VectorStore

end CodeAtlas
