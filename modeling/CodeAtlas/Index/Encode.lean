import CodeAtlas.Index.Basic
import CodeAtlas.Wire.Field

/-! Writes an index: fields in the order of their numbers, default values left out, repeated numbers
packed. -/

namespace CodeAtlas

open Wire

namespace Wire.Field

def string (number : Nat) (s : String) : List Field :=
  if s.isEmpty then [] else [⟨number, .ofString s⟩]

def int32 (number : Nat) (x : Int32) : List Field := if x = 0 then [] else [⟨number, .ofInt32 x⟩]

def bool (number : Nat) (b : Bool) : List Field := if b then [⟨number, .varint 1⟩] else []

def strings (number : Nat) (xs : List String) : List Field := xs.map fun s => ⟨number, .ofString s⟩

def packed (number : Nat) (xs : List Int32) : List Field :=
  if xs.isEmpty then [] else [⟨number, .pack xs⟩]

def message (number : Nat) (fs : List Field) : Field := ⟨number, .bytes (writeFields fs)⟩

end Wire.Field

def ToolInfo.fields (t : ToolInfo) : List Field :=
  Field.string 1 t.name ++ Field.string 2 t.version ++ Field.strings 3 t.arguments

def Metadata.fields (m : Metadata) : List Field :=
  Field.int32 1 m.version ++ m.tool.toList.map (fun t => Field.message 2 t.fields)
    ++ Field.string 3 m.projectRoot ++ Field.int32 4 m.textEncoding

def Relationship.fields (r : Relationship) : List Field :=
  Field.string 1 r.symbol ++ Field.bool 2 r.isReference ++ Field.bool 3 r.isImplementation
    ++ Field.bool 4 r.isTypeDefinition ++ Field.bool 5 r.isDefinition

def SymbolInformation.fields (i : SymbolInformation) : List Field :=
  Field.string 1 i.symbol ++ Field.strings 3 i.documentation
    ++ i.relationships.map (fun r => Field.message 4 r.fields)
    ++ Field.int32 5 i.kind ++ Field.string 6 i.displayName ++ Field.string 8 i.enclosingSymbol

def Occurrence.fields (o : Occurrence) : List Field :=
  Field.packed 1 o.range ++ Field.string 2 o.symbol ++ Field.int32 3 o.roles
    ++ Field.strings 4 o.overrideDocumentation ++ Field.int32 5 o.syntaxKind
    ++ Field.packed 7 o.enclosingRange

def Document.fields (d : Document) : List Field :=
  Field.string 1 d.path ++ d.occurrences.map (fun o => Field.message 2 o.fields)
    ++ d.symbols.map (fun i => Field.message 3 i.fields)
    ++ Field.string 4 d.language ++ Field.string 5 d.text

namespace Index

def fields (x : Index) : List Field :=
  x.metadata.toList.map (fun m => Field.message 1 m.fields)
    ++ x.documents.map (fun d => Field.message 2 d.fields)
    ++ x.externalSymbols.map (fun i => Field.message 3 i.fields)

def encode (x : Index) : List UInt8 := writeFields x.fields

end Index

end CodeAtlas
