import CodeAtlas.Graph.Query
import CodeAtlas.Symbol.Parser

/-! Builds the graph of an index. Documents come in index order: first the symbols that a document
declares, then its occurrences, then, where wanted, what the bodies of its methods mention. Items
that are not well formed are passed over. -/

namespace CodeAtlas.SymbolGraph

def symbol? (uri : String) : Option Symbol := (Symbol.parse? uri).toOption

theorem uri_of_symbol? {uri : String} {s : Symbol} (h : symbol? uri = some s) : s.uri = uri :=
  Symbol.uri_of_parse? (toOption_eq_some_iff.1 h)

theorem symbol?_uri {uri : String} {s : Symbol} (h : symbol? uri = some s) :
    symbol? s.uri = some s := by
  rw [uri_of_symbol? h, h]

def addRelationship (s : Symbol) (g : SymbolGraph) (r : Relationship) : SymbolGraph :=
  match symbol? r.symbol with
  | none => g
  | some target => (g.addSymbol target).addLink (.relationship s target r.kindBits)

def addInformation (g : SymbolGraph) (i : SymbolInformation) : SymbolGraph :=
  match symbol? i.symbol with
  | none => g
  | some s => i.relationships.foldl (addRelationship s) (g.addSymbol s)

def addDeclaration (file : String) (g : SymbolGraph) (i : SymbolInformation) : SymbolGraph :=
  match symbol? i.symbol with
  | none => g
  | some s => ((g.addInformation i).addSymbol s).setDefinition s file

def addOccurrence (file : String) (g : SymbolGraph) (o : Occurrence) : SymbolGraph :=
  match symbol? o.symbol, SourceRange.ofRaw? o.range with
  | some s, some range =>
    let roles := Roles.ofRaw o.roles
    let g := (g.addSymbol s).addLink
      (.reference s file ⟨range.startLine, range.startColumn, roles⟩)
    if roles.isDefinition then g.setDefinition s file else g
  | _, _ => g

def addCall (method : Symbol) (g : SymbolGraph) (r : Reference) : SymbolGraph :=
  if r.symbol == method || !r.symbol.isCallable then g
  else ((g.addSymbol r.symbol).addLink (.caller method r.symbol r.site)).addLink
    (.callee r.symbol method r.site)

def addCalls (resolver : SourceResolver) (g : SymbolGraph) (method : Symbol) : SymbolGraph :=
  match resolver.span method with
  | .ok (some span) => (g.referencesInSpan span).foldl (addCall method) (g.addSymbol method)
  | _ => g

def declared (d : Document) : List Symbol := d.symbols.filterMap fun i => symbol? i.symbol

def addDocument (resolver : Option SourceResolver) (g : SymbolGraph) (d : Document) : SymbolGraph :=
  let g := d.symbols.foldl (addDeclaration d.path) (g.addFile d.path)
  let g := d.occurrences.foldl (addOccurrence d.path) g
  match resolver with
  | none => g
  | some resolver =>
    ((declared d).filter fun s => s.kind = .method).foldl (addCalls resolver) g

/-- Every symbol has at most one definition, and a declared one has one. -/
def verify (g : SymbolGraph) (declared : List Symbol) : Except GraphError SymbolGraph :=
  let broken? := g.symbols.find? fun s =>
    let n := g.definitionCount s
    1 < n || (n = 0 && declared.any (· == s))
  match broken? with
  | none => .ok g
  | some s => .error (.integrity s.uri (g.definitionCount s))

/-- The graph of an index, with callers and callees if a resolver is given to find method bodies. -/
def build (resolver : Option SourceResolver) (x : Index) : Except GraphError SymbolGraph :=
  let g := x.documents.foldl (addDocument resolver) {}
  let g := x.externalSymbols.foldl addInformation g
  g.verify (x.documents.flatMap declared)

end CodeAtlas.SymbolGraph
