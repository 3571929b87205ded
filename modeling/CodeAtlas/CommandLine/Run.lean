import CodeAtlas.CommandLine.Arguments
import CodeAtlas.Decimal.Rounded
import CodeAtlas.Embedding.File
import CodeAtlas.Graph.Build
import CodeAtlas.Index.Load
import CodeAtlas.Search.Engine
import CodeAtlas.Settings.File

/-! Runs commands. What a command prints comes as an outcome, so that the files are its
only effect. -/

namespace CodeAtlas.CommandLine

structure Outcome where
  code : Nat := 0
  output : String := ""
  diagnostics : String := ""
  deriving Repr

inductive Failure where
  | index (path : String) (cause : IndexError)
  | search (cause : SearchError Float)
  | settings (cause : SettingsWriteError)

def Failure.message : Failure → String
  | .index path _ => "failed to load index " ++ path
  | .search cause => cause.message
  | .settings cause => cause.message

def block (lines : List String) : String := String.join (lines.map (· ++ "\n"))

namespace Outcome

def print (lines : List String) : Outcome := { output := block lines }

def note (line : String) : Outcome := { diagnostics := block [line] }

def failure (cause : Failure) : Outcome :=
  { code := 1, diagnostics := block ["Error: " ++ cause.message] }

def andThen (a b : Outcome) : Outcome :=
  if a.code ≠ 0 then a
  else ⟨b.code, a.output ++ b.output, a.diagnostics ++ b.diagnostics⟩

def ofExcept {β : Type} (r : Except Failure β) (f : β → Outcome) : Outcome :=
  match r with
  | .ok v => f v
  | .error cause => failure cause

def ofSearch {β : Type} (r : Except (SearchError Float) β) (f : β → Outcome) : Outcome :=
  ofExcept (r.mapError .search) f

end Outcome

open Outcome (print note ofExcept ofSearch)

variable {m : Type → Type} [Monad m] [MonadFiles m]

/-- Stands in for a model, and has no vectors. -/
def noModel : EmbeddingProvider m Float32 :=
  let vector (_ : String) : m (Except EmbeddingError (List Float32)) :=
    return .error (.provider "symdex was built without the \x60fastembed\x60 feature")
  ⟨vector, EmbeddingProvider.each vector⟩

def loadNavigator (s : Settings) : m (Except Failure Navigator) := do
  match ← Index.load s.index.indexPath with
  | .error cause => return .error (.index s.index.indexPath cause)
  | .ok x =>
    let sources ← SourceIndex.load (s.index.projectRoot.or x.projectRoot?) x
    let resolver := sources.resolver
    let graph := SymbolGraph.build (if s.index.buildCallerRelations then some resolver else none) x
    return (graph.map fun graph => ⟨graph, resolver⟩).mapError (.search ∘ .graph)

def openStore (s : Settings) : m (Except Failure (VectorStore Float32)) :=
  return (← VectorStore.open? s.semantic.embeddingsPath).mapError (.search ∘ .embedding)

def rankConfig (s : Settings) : Except Failure (RankConfig Float) :=
  s.rank.config.mapError (.search ∘ .rank)

def withEngine (s : Settings)
    (ask : SearchEngine m Float Float32 → VectorStore Float32 → m Outcome) : m Outcome := do
  match ← loadNavigator s with
  | .error cause => return .failure cause
  | .ok navigator =>
    match ← openStore s with
    | .error cause => return .failure cause
    | .ok store =>
      match rankConfig s with
      | .error cause => return .failure cause
      | .ok rankConfig =>
        ask { navigator, rankConfig, provider := noModel, norm := s.semantic.norm
              widen := Float32.toFloat, power := s.semantic.zScorePower } store

def padLeft (width : Nat) (s : String) : String :=
  String.ofList (List.replicate (width - s.length) ' ') ++ s

def rankingLines (scores : List (Symbol × Float)) : List String :=
  scores.zipIdx.map fun ((symbol, score), i) =>
    padLeft 4 (toString (i + 1)) ++ ". " ++ Decimal.fixed 6 (.ofFloat score) ++
      "  " ++ symbol.dotpath

def place (r : Reference) : String :=
  toString (r.site.line + 1) ++ ":" ++ toString (r.site.column + 1)

def matchLines (found : List (String × List Nat)) : List String :=
  found.flatMap fun (path, lines) => lines.map fun n => path ++ ":" ++ toString n

def statsLines (s : GraphStats) : List String := [
  "files:          " ++ toString s.files,
  "symbols:        " ++ toString s.symbols,
  "contains:       " ++ toString s.contains,
  "relationships:  " ++ toString s.relationships,
  "references:     " ++ toString s.references,
  "caller pairs:   " ++ toString s.callerPairs]

def callsOutcome (e : SearchEngine m Float Float32) (uri : String) : Outcome :=
  let listed (r : Except (SearchError Float) (List Symbol)) : Outcome :=
    ofSearch r fun symbols => print (symbols.map fun s => "  " ++ s.dotpath)
  let parts := [print ["callers:"], listed (e.callers uri), print ["callees:"],
    listed (e.callees uri)]
  parts.foldl Outcome.andThen {}

def responseOutcome : SearchResponse Float → Outcome
  | .references files =>
    print (files.flatMap fun (path, rs) => rs.map fun r => path ++ ":" ++ place r)
  | .ranking scores => print (rankingLines scores)
  | .exact found => print (matchLines found)
  | .source (some text) => print [text]
  | .source none => note "No source found"

def initialise (force : Bool) : m Outcome := do
  let dir ← MonadFiles.currentDirectory
  return ofExcept ((← Settings.init dir force).mapError .settings) fun path =>
    print ["Created configuration file at: " ++ path]

def rankOutcome (s : Settings) (top : Nat) (filter : Option String) : m Outcome := do
  return ofExcept (← loadNavigator s) fun navigator =>
    ofExcept (rankConfig s) fun config =>
      let r := SymbolRank.ofGraph (navigator.rankableSubgraph .bidirectional filter) config
      ofSearch ((r.rank none).mapError .rank) fun scores => print (rankingLines (scores.take top))

def embedInto (s : Settings) (store : VectorStore Float32) (items : List (Symbol × String)) :
    m Outcome := do
  let path := s.semantic.embeddingsPath
  let failed (e : EmbeddingError) : m Outcome := return .failure (.search (.embedding e))
  match ← store.processBatch noModel items with
  | (.error e, _) => failed e
  | (.ok updates, store) =>
    match ← store.save path with
    | .error e => failed e
    | .ok () => return print ["Processed " ++ toString updates.length ++ " symbols ("
        ++ toString store.size ++ " stored) into " ++ path]

def embedAll (s : Settings) : m Outcome := do
  match ← loadNavigator s with
  | .error cause => return .failure cause
  | .ok navigator =>
    match ← openStore s with
    | .error cause => return .failure cause
    | .ok store => match navigator.embeddable with
      | .error cause => return .failure (.search (.source cause))
      | .ok items => embedInto s store items

def perform (s : Settings) : Command → m Outcome
  | .init force => initialise force
  | .config => return ofExcept (s.text?.mapError .settings) fun text => print [text]
  | .stats => return ofExcept (← loadNavigator s) fun v => print (statsLines v.graph.stats)
  | .references uri => withEngine s fun e _ =>
    return ofSearch (e.references uri) fun files =>
      print (files.flatMap fun (path, rs) => path :: rs.map fun r => "  " ++ place r)
  | .calls uri => withEngine s fun e _ => return callsOutcome e uri
  | .source uri => withEngine s fun e _ =>
    return ofSearch (e.source uri) fun
      | some text => print [text]
      | none => note ("No source found for " ++ uri)
  | .exact pattern => withEngine s fun e _ =>
    return ofSearch (e.exactSearch pattern) fun found => print (matchLines found)
  | .rank top filter => rankOutcome s top filter
  | .embed => embedAll s
  | .search query top => withEngine s fun e store => do
    return ofSearch (← e.rankSearchTop store query top) fun scores => print (rankingLines scores)
  | .query text => withEngine s fun e store => do
    return ofSearch (← e.dispatch store text) responseOutcome

def version : String := "symdex 0.3.0"

def usage : String := "Usage: symdex [--index <INDEX>] <COMMAND>"

/-- Runs the program. Settings that cannot be read are reported, and the standard ones are used. -/
def run (environment : List (String × String)) (args : List String) : m Outcome := do
  match Invocation.parse args with
  | .error .version => return print [version]
  | .error .help => return print [usage]
  | .error (.usage reason) =>
    return { code := 2, diagnostics := block ["error: " ++ reason, usage] }
  | .ok invocation =>
    let (settings, warning) ← match ← Settings.load environment with
      | .ok settings => pure (settings, ({} : Outcome))
      | .error e => pure ({}, note ("Configuration error: " ++ e.message))
    let settings := match invocation.index with
      | none => settings
      | some path => { settings with index := { settings.index with indexPath := path } }
    return warning.andThen (← perform settings invocation.command)

end CodeAtlas.CommandLine
