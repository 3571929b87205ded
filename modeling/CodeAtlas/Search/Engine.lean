import CodeAtlas.Embedding.Similarity
import CodeAtlas.Embedding.Upkeep
import CodeAtlas.Graph.Navigator
import CodeAtlas.Rank.Ranking
import CodeAtlas.Search.Query
import CodeAtlas.Symbol.Parser

/-! Searching a graph: structural questions, literal text, and free text by the similarity of
embeddings, which personalises the ranking. -/

namespace CodeAtlas

inductive SearchError (α : Type) where
  | query (fault : QueryFault)
  | symbol (cause : SymbolError)
  | graph (cause : GraphError)
  | rank (cause : RankError α)
  | embedding (cause : EmbeddingError)
  | source (cause : SourceError)
  deriving Repr

def SearchError.message : SearchError Float → String
  | .query fault => "Invalid query: " ++ fault.reason
  | .symbol cause => cause.message
  | .graph cause => cause.message
  | .rank cause => cause.message
  | .embedding cause => cause.message
  | .source cause => cause.message

inductive SearchResponse (α : Type) where
  | references (files : List (String × List Reference))
  | ranking (scores : List (Symbol × α))
  | exact (lines : List (String × List Nat))
  | source (text : Option String)

/-- A searchable graph. Vectors have components of type `κ`, scores are of type `α`. -/
structure SearchEngine (m : Type → Type) (α κ : Type) where
  navigator : Navigator
  rankConfig : RankConfig α
  provider : EmbeddingProvider m κ
  norm : Norm
  widen : κ → α
  power : α
  rowOrder : RowOrder α := .ascending

namespace SearchEngine

variable {m : Type → Type} [Monad m] {α κ : Type} [Scalar α]

def rankGraph (e : SearchEngine m α κ) : SymbolRank α :=
  .ofGraph (e.navigator.rankableSubgraph .bidirectional none) e.rankConfig e.rowOrder

def personalization (e : SearchEngine m α κ) (store : VectorStore κ) (query : List κ) :
    Except EmbeddingError (Weights α) := do
  let scores ← Similarity.scores e.norm e.widen query (store.inSlot .code)
  return (scores.map (·.1)).zip (Similarity.shiftedZScore (scores.map (·.2)) e.power)

/-- Every rankable symbol by its relevance to a query. Only code embeddings count; without any,
symbols rank as they do without a query. -/
def rankFor (e : SearchEngine m α κ) (store : VectorStore κ) (query : List κ) :
    Except (SearchError α) (List (Symbol × α)) := do
  let weights ← (e.personalization store query).mapError .embedding
  (e.rankGraph.rank (if weights.isEmpty then none else some weights)).mapError .rank

def rankSearch (e : SearchEngine m α κ) (store : VectorStore κ) (query : String) :
    m (Except (SearchError α) (List (Symbol × α))) := do
  match ← e.provider.vector query with
  | .error cause => return .error (.embedding cause)
  | .ok vector => return e.rankFor store vector

def rankSearchTop (e : SearchEngine m α κ) (store : VectorStore κ) (query : String) (k : Nat) :
    m (Except (SearchError α) (List (Symbol × α))) := do
  return (← e.rankSearch store query).map (·.take k)

def uniformRank (e : SearchEngine m α κ) : Except (SearchError α) (List (Symbol × α)) :=
  (e.rankGraph.rank none).mapError .rank

def withSymbol {β : Type} (uri : String) (ask : Symbol → Except (SearchError α) β) :
    Except (SearchError α) β :=
  (Symbol.parse? uri).mapError .symbol >>= ask

def references (e : SearchEngine m α κ) (uri : String) :
    Except (SearchError α) (List (String × List Reference)) :=
  withSymbol uri fun s => (e.navigator.graph.references s).mapError .graph

def callers (e : SearchEngine m α κ) (uri : String) : Except (SearchError α) (List Symbol) :=
  withSymbol uri fun s => (e.navigator.graph.callers s).mapError .graph

def callees (e : SearchEngine m α κ) (uri : String) : Except (SearchError α) (List Symbol) :=
  withSymbol uri fun s => (e.navigator.graph.callees s).mapError .graph

def source (e : SearchEngine m α κ) (uri : String) : Except (SearchError α) (Option String) :=
  withSymbol uri fun s => ((e.navigator.resolver.source s).map fun found =>
    found.map (·.text)).mapError
    .source

def matchingLines (pattern text : List Char) : List Nat :=
  ((Text.lines text).zipIdx.filter fun (line, _) => Text.contains pattern line).map (·.2 + 1)

def hits (pattern : String) (modules : List (String × String)) : List (String × List Nat) :=
  modules.filterMap fun (path, text) =>
    match matchingLines pattern.toList text.toList with
    | [] => none
    | found => some (path, found)

/-- The hits by path; where one comes again, the later hit takes the place of the earlier. -/
def exactSearch (e : SearchEngine m α κ) (pattern : String) :
    Except (SearchError α) (List (String × List Nat)) :=
  if pattern.isEmpty then .error (.query .noPattern)
  else .ok (Ordered.ofPairs (hits pattern e.navigator.resolver.modules))

def ask (e : SearchEngine m α κ) (store : VectorStore κ) (q : SearchQuery) :
    m (Except (SearchError α) (SearchResponse α)) :=
  match q.kind with
  | .references => return (e.references q.text).map .references
  | .rank => return (← e.rankSearch store q.text).map .ranking
  | .exact => return (e.exactSearch q.text).map .exact
  | .source => return (e.source q.text).map .source

def dispatch (e : SearchEngine m α κ) (store : VectorStore κ) (command : String) :
    m (Except (SearchError α) (SearchResponse α)) :=
  match SearchQuery.parse command with
  | .error fault => return .error (.query fault)
  | .ok q => e.ask store q

end SearchEngine

end CodeAtlas
