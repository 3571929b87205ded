/-! A cross-reference index as an indexer wrote it: documents with their symbols and occurrences,
and the symbols of other packages. -/

namespace CodeAtlas

structure ToolInfo where
  name : String := ""
  version : String := ""
  arguments : List String := []
  deriving Repr, DecidableEq

structure Metadata where
  version : Int32 := 0
  tool : Option ToolInfo := none
  projectRoot : String := ""
  textEncoding : Int32 := 0
  deriving Repr, DecidableEq

structure Relationship where
  symbol : String := ""
  isReference : Bool := false
  isImplementation : Bool := false
  isTypeDefinition : Bool := false
  isDefinition : Bool := false
  deriving Repr, DecidableEq

structure SymbolInformation where
  symbol : String := ""
  documentation : List String := []
  relationships : List Relationship := []
  kind : Int32 := 0
  displayName : String := ""
  enclosingSymbol : String := ""
  deriving Repr, DecidableEq

structure Occurrence where
  range : List Int32 := []
  symbol : String := ""
  roles : Int32 := 0
  overrideDocumentation : List String := []
  syntaxKind : Int32 := 0
  enclosingRange : List Int32 := []
  deriving Repr, DecidableEq

structure Document where
  path : String := ""
  occurrences : List Occurrence := []
  symbols : List SymbolInformation := []
  language : String := ""
  text : String := ""
  deriving Repr, DecidableEq

structure Index where
  metadata : Option Metadata := none
  documents : List Document := []
  externalSymbols : List SymbolInformation := []
  deriving Repr, DecidableEq

def Relationship.kindBits (r : Relationship) : Nat :=
  r.isReference.toNat + 2 * r.isImplementation.toNat + 4 * r.isTypeDefinition.toNat
    + 8 * r.isDefinition.toNat

/-- The project root that the indexer recorded, less a `file://` in front. -/
def Index.projectRoot? (x : Index) : Option String :=
  match x.metadata with
  | none => none
  | some m =>
    if m.projectRoot.isEmpty then none
    else if "file://".toList.isPrefixOf m.projectRoot.toList then
      some (String.ofList (m.projectRoot.toList.drop 7))
    else some m.projectRoot

end CodeAtlas
