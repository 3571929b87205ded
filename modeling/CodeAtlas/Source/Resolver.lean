import CodeAtlas.Index.Basic
import CodeAtlas.Ordered
import CodeAtlas.Source.Block
import CodeAtlas.Source.Range
import CodeAtlas.Symbol.Basic

/-! Definition spans and source texts of symbols, from the definition occurrences of an index and
the texts of its modules. -/

namespace CodeAtlas

inductive SourceError where
  | resolver (reason : String)
  deriving Repr, DecidableEq

def SourceError.message : SourceError → String
  | .resolver reason => "Source resolver failure: " ++ reason

structure SymbolSource where
  span : SourceSpan
  text : String
  deriving Repr, DecidableEq

/-- What is asked about the sources of symbols; either question may fail, or find nothing. -/
structure SourceResolver where
  span : Symbol → Except SourceError (Option SourceSpan)
  source : Symbol → Except SourceError (Option SymbolSource)
  modules : List (String × String)

structure DefinitionSite where
  path : String
  range : SourceRange
  enclosing : Option SourceRange
  deriving Repr, DecidableEq

/-- The modules of an index, by path, and the definition sites of symbol uris, latest first. -/
structure SourceIndex where
  modules : List (String × String)
  definitions : List (String × DefinitionSite)
  deriving Repr

namespace SourceIndex

def definition? (path : String) (o : Occurrence) : Option (String × DefinitionSite) :=
  if (Roles.ofRaw o.roles).isDefinition then
    (SourceRange.ofRaw? o.range).map fun range =>
      (o.symbol, ⟨path, range, SourceRange.ofRaw? o.enclosingRange⟩)
  else none

def build (textOf : Document → Option String) (x : Index) : SourceIndex where
  modules :=
    Ordered.ofPairs (x.documents.filterMap fun d => (textOf d).map fun text => (d.path, text))
  definitions := (x.documents.flatMap fun d => d.occurrences.filterMap (definition? d.path)).reverse

def embedded? (d : Document) : Option String := if d.text.isEmpty then none else some d.text

def text? (s : SourceIndex) (path : String) : Option String := s.modules.lookup path

def site? (s : SourceIndex) (uri : String) : Option DefinitionSite := s.definitions.lookup uri

/-- The enclosing range where one was recorded, else the indentation block of the definition line,
else the range of the name alone. -/
def spanOf (s : SourceIndex) (site : DefinitionSite) : SourceSpan :=
  match site.enclosing with
  | some r => ⟨site.path, r.startLine, r.startColumn, r.endLine⟩
  | none =>
    let block := (s.text? site.path).bind fun text =>
      Source.indentationBlock (Text.lines text.toList) site.range.startLine
    match block with
    | some (column, last) =>
      ⟨site.path, site.range.startLine, column, max last site.range.endLine⟩
    | none => ⟨site.path, site.range.startLine, site.range.startColumn, site.range.endLine⟩

def span? (s : SourceIndex) (symbol : Symbol) : Option SourceSpan :=
  (s.site? symbol.uri).map s.spanOf

def excerpt (text : String) (start height : Nat) : String :=
  let lines := ((Text.lines text.toList).drop start).take (height + 1)
  String.ofList (['\n'].intercalate lines)

def source? (s : SourceIndex) (symbol : Symbol) : Option SymbolSource := do
  let span ← s.span? symbol
  let text ← s.text? span.path
  let height ← span.height?
  return ⟨span, excerpt text span.startLine height⟩

def resolver (s : SourceIndex) : SourceResolver where
  span symbol := .ok (s.span? symbol)
  source symbol := .ok (s.source? symbol)
  modules := s.modules

end SourceIndex

end CodeAtlas
