import CodeAtlas.Graph.Basic
import CodeAtlas.Source.Resolver

/-! Questions to a finished graph, and why they have no answer. -/

namespace CodeAtlas

inductive GraphError where
  | integrity (uri : String) (definitions : Nat)
  | symbolNotFound (uri : String)
  | noDefinition (uri : String)
  | unresolvable (uri : String)
  | source (cause : SourceError)
  deriving Repr, DecidableEq

def GraphError.message : GraphError → String
  | .integrity uri definitions =>
    "Graph integrity violated: " ++ uri ++ " has " ++ toString definitions ++ " contains edges"
  | .symbolNotFound uri => "Symbol not in graph: " ++ uri
  | .noDefinition uri => "Symbol has no defining file: " ++ uri
  | .unresolvable uri => "Source span unavailable for " ++ uri
  | .source cause => "Source resolver error: " ++ cause.message

namespace SymbolGraph

def find (g : SymbolGraph) (s : Symbol) : Except GraphError Unit :=
  if g.hasSymbol s then .ok () else .error (.symbolNotFound s.uri)

def targets (g : SymbolGraph) (pick : Link → Option Symbol) : List Symbol :=
  let found := g.links.filterMap fun (slot, l) => (pick l).map fun t => (slot, t)
  ((found.mergeSort fun a b => a.1 ≤ b.1).map (·.2)).eraseDups

def relationships (g : SymbolGraph) (s : Symbol) : Except GraphError (List Symbol) := do
  g.find s
  return g.targets fun
    | .relationship source target _ => if source == s then some target else none
    | _ => none

def callers (g : SymbolGraph) (s : Symbol) : Except GraphError (List Symbol) := do
  g.find s
  return g.targets fun
    | .callee source target _ => if source == s then some target else none
    | _ => none

def callees (g : SymbolGraph) (s : Symbol) : Except GraphError (List Symbol) := do
  g.find s
  return g.targets fun
    | .caller source target _ => if source == s then some target else none
    | _ => none

def mentions (g : SymbolGraph) (s : Symbol) : List (String × Reference) :=
  g.links.filterMap fun
    | (_, .reference symbol file site) => if symbol == s then some (file, ⟨s, site⟩) else none
    | _ => none

/-- Every reference to a symbol: files in ascending order, positions in ascending order within a
file, and of references at one position the newest. -/
def references (g : SymbolGraph) (s : Symbol) :
    Except GraphError (List (String × List Reference)) := do
  g.find s
  let grouped := (Ordered.group (g.mentions s)).map fun (file, rs) =>
    (file, Ordered.squeeze (rs.mergeSort Reference.positionLe))
  return grouped.mergeSort fun a b => a.1 ≤ b.1

/-- Every reference of the span's file whose position the span encloses: ascending by position and
uri, and of equal ones the newest. -/
def referencesInSpan (g : SymbolGraph) (span : SourceSpan) : List Reference :=
  let found : List Reference := g.links.filterMap fun
    | (_, .reference symbol file site) =>
      if file == span.path && span.encloses site.line site.column then some ⟨symbol, site⟩ else none
    | _ => none
  Ordered.squeeze (found.mergeSort Reference.le)

end SymbolGraph
end CodeAtlas
