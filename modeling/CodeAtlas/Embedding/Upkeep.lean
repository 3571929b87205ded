import CodeAtlas.Embedding.Store

/-! Keeping a store in step with the texts of symbols: vectors are built only where a text is new or
has changed. -/

namespace CodeAtlas

variable {κ : Type} {m : Type → Type} [Monad m]

structure EmbeddingProvider (m : Type → Type) (κ : Type) where
  vector : String → m (Except EmbeddingError (List κ))
  batch : List String → m (Except EmbeddingError (List (List κ)))

def EmbeddingProvider.each (vector : String → m (Except EmbeddingError (List κ))) :
    List String → m (Except EmbeddingError (List (List κ)))
  | [] => return .ok []
  | text :: rest => do
    match ← vector text with
    | .error e => return .error e
    | .ok v => return (← each vector rest).map (v :: ·)

inductive EmbeddingUpdate where
  | created
  /-- A new vector took the place of an old one. -/
  | superseded
  /-- The vector stayed and got a new symbol. -/
  | repointed
  | unchanged
  deriving Repr, DecidableEq

namespace VectorStore

/-- Handles what needs no new vector: an embedding of the same text is left alone, or given the
symbol if its uri is another. -/
def refresh (s : VectorStore κ) (symbol : Symbol) (document : String) (slot : EmbeddingSlot) :
    Except EmbeddingError (Option EmbeddingUpdate × VectorStore κ) :=
  match s.get? ⟨slot, symbol.dotpath⟩ with
  | none => .ok (none, s)
  | some e =>
    if e.document ≠ document then .ok (none, s)
    else if e.symbol == symbol then .ok (some .unchanged, s)
    else (s.update { e with symbol }).map fun s => (some .repointed, s)

def supply (s : VectorStore κ) (e : Embedding κ) :
    Except EmbeddingError (EmbeddingUpdate × VectorStore κ) :=
  match s.get? e.key with
  | none => (s.add e).map fun s => (.created, s)
  | some _ => do
    let (_, cleared) ← s.discard e.key
    return (.superseded, ← cleared.add e)

def settle {β : Type} (s : VectorStore κ) :
    Except EmbeddingError (β × VectorStore κ) → Except EmbeddingError β × VectorStore κ
  | .ok (b, s) => (.ok b, s)
  | .error e => (.error e, s)

def processWith (s : VectorStore κ) (p : EmbeddingProvider m κ) (symbol : Symbol)
    (document : String)
    (kind : EmbeddingKind) : m (Except EmbeddingError EmbeddingUpdate × VectorStore κ) := do
  match s.refresh symbol document kind.slot with
  | .error e => return (.error e, s)
  | .ok (some update, s) => return (.ok update, s)
  | .ok (none, s) =>
    match ← p.vector document with
    | .error e => return (.error e, s)
    | .ok vector => return s.settle (s.supply ⟨symbol, document, vector, kind⟩)

def process (s : VectorStore κ) (p : EmbeddingProvider m κ) (symbol : Symbol) (source : String) :
    m (Except EmbeddingError EmbeddingUpdate × VectorStore κ) :=
  s.processWith p symbol source .code

def processDocumentation (s : VectorStore κ) (p : EmbeddingProvider m κ) (symbol : Symbol)
    (document summary context : String) :
    m (Except EmbeddingError EmbeddingUpdate × VectorStore κ) :=
  s.processWith p symbol document (.doc summary context)

def refreshAll (s : VectorStore κ) :
    List (Symbol × String) → Except EmbeddingError (List (Option EmbeddingUpdate)) × VectorStore κ
  | [] => (.ok [], s)
  | (symbol, source) :: rest =>
    match s.refresh symbol source .code with
    | .error e => (.error e, s)
    | .ok (update, s) =>
      let (updates, s) := s.refreshAll rest
      (updates.map (update :: ·), s)

def pendingTexts (planned : List ((Symbol × String) × Option EmbeddingUpdate)) : List String :=
  (planned.filter (·.2.isNone)).map (·.1.2)

def supplyAll (s : VectorStore κ) :
    List ((Symbol × String) × Option EmbeddingUpdate) → List (List κ) →
      Except EmbeddingError (List EmbeddingUpdate) × VectorStore κ
  | [], _ => (.ok [], s)
  | (_, some update) :: rest, vectors =>
    let (updates, s) := s.supplyAll rest vectors
    (updates.map (update :: ·), s)
  | (_, none) :: _, [] => (.ok [], s)
  | ((symbol, source), none) :: rest, vector :: vectors =>
    match s.supply ⟨symbol, source, vector, .code⟩ with
    | .error e => (.error e, s)
    | .ok (update, s) =>
      let (updates, s) := s.supplyAll rest vectors
      (updates.map (update :: ·), s)

/-- Like `process` for every item, with one batch of vectors for all that need one. -/
def processBatch (s : VectorStore κ) (p : EmbeddingProvider m κ) (items : List (Symbol × String)) :
    m (Except EmbeddingError (List EmbeddingUpdate) × VectorStore κ) := do
  match s.refreshAll items with
  | (.error e, s) => return (.error e, s)
  | (.ok updates, s) =>
    let planned := items.zip updates
    let texts := pendingTexts planned
    if texts.isEmpty then return s.supplyAll planned []
    match ← p.batch texts with
    | .error e => return (.error e, s)
    | .ok vectors =>
      if vectors.length = texts.length then return s.supplyAll planned vectors
      else return (.error (.provider ("expected " ++ toString texts.length ++ " vectors, got "
        ++ toString vectors.length)), s)

end VectorStore

end CodeAtlas
