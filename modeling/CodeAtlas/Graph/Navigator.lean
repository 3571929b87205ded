import CodeAtlas.Graph.Query
import CodeAtlas.Rank.Graph

/-! Questions that need the graph and the sources together: what a definition mentions, and the
graph of the symbols worth ranking. -/

namespace CodeAtlas

inductive SubgraphDirection where
  | toDependents
  | fromDependents
  | bidirectional
  deriving Repr, DecidableEq

structure Navigator where
  graph : SymbolGraph
  resolver : SourceResolver

namespace Navigator

def referencesInScope (v : Navigator) (s : Symbol) : Except GraphError (List Reference) := do
  v.graph.find s
  match v.graph.definingFile? s with
  | none => .error (.noDefinition s.uri)
  | some file => match v.resolver.span s with
    | .error e => .error (.source e)
    | .ok none => .error (.unresolvable s.uri)
    | .ok (some span) => return v.graph.referencesInSpan { span with path := file }

theorem referencesInScope_eq_ok {v : Navigator} {s : Symbol} {file : String} {span : SourceSpan}
    (hs : v.graph.hasSymbol s) (hfile : v.graph.definingFile? s = some file)
    (hspan : v.resolver.span s = .ok (some span)) :
    v.referencesInScope s = .ok (v.graph.referencesInSpan { span with path := file }) := by
  simp only [referencesInScope, SymbolGraph.find, hs, hfile, hspan]
  rfl

def dependencies (v : Navigator) (s : Symbol) : Except GraphError (List Symbol) := do
  let found ← v.referencesInScope s
  return ((found.map (·.symbol)).filter fun t => !(t == s)).eraseDups

def linked (v : Navigator) (s : Symbol) : Except GraphError (List Symbol) := do
  let dependencies ← v.dependencies s
  let relationships ← v.graph.relationships s
  return (dependencies ++ relationships).eraseDups

def isRankable (filter : Option String) (s : Symbol) : Bool :=
  s.isCallable && !s.parts.isGenerated && !s.parts.isLocal && !s.parts.isMeta
    && !s.parts.isParameter && filter.all fun start => s.dotpath.startsWith start

def rankableSymbols (v : Navigator) (filter : Option String) : List Symbol :=
  v.graph.symbols.filter (isRankable filter)

def embeddable (v : Navigator) : Except SourceError (List (Symbol × String)) := do
  let found ← (v.rankableSymbols none).mapM fun s => do return (s, ← v.resolver.source s)
  return found.filterMap fun (s, source) => source.map fun x => (s, x.text)

variable {α : Type}

def oriented (direction : SubgraphDirection) {n : Nat} (source target : Fin n) :
    List (Fin n × Fin n) :=
  match direction with
  | .toDependents => [(source, target)]
  | .fromDependents => [(target, source)]
  | .bidirectional => [(source, target), (target, source)]

/-- The pairs of nodes that a symbol links; a symbol whose dependencies cannot be found
links none. -/
def linkedPairs (v : Navigator) (direction : SubgraphDirection) (nodes : Array Symbol)
    (source : Fin nodes.size) : List (Fin nodes.size × Fin nodes.size) :=
  match v.linked nodes[source] with
  | .error _ => []
  | .ok targets => targets.flatMap fun t =>
    match nodes.findFinIdx? (· == t) with
    | none => []
    | some target => if target = source then [] else oriented direction source target

/-- The rankable symbols, each linked with its dependencies and relationships, without loops and
without parallel edges. -/
def rankableSubgraph (v : Navigator) (direction : SubgraphDirection) (filter : Option String) :
    RankGraph α :=
  let nodes := (v.rankableSymbols filter).toArray
  let pairs := (List.finRange nodes.size).flatMap (v.linkedPairs direction nodes)
  { nodes, edges := pairs.eraseDups.map fun (a, b) => ⟨a, b, .attributes []⟩ }

end Navigator

end CodeAtlas
