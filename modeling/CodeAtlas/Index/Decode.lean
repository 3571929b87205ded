import CodeAtlas.Index.Basic
import CodeAtlas.Wire.Field

/-! Reads an index from its encoding. The last scalar wins, repeated fields grow, and a message that
comes again is merged into what was read before. -/

namespace CodeAtlas

open Wire

/-- How deep groups may nest at the top of an index; each enclosing message takes one level. -/
def nestingLimit : Nat := 100

def ToolInfo.absorb (t : ToolInfo) (f : Field) : Option ToolInfo :=
  match f.number with
  | 1 => f.payload.string?.map fun s => { t with name := s }
  | 2 => f.payload.string?.map fun s => { t with version := s }
  | 3 => f.payload.string?.map fun s => { t with arguments := t.arguments ++ [s] }
  | _ => some t

def Metadata.absorb (m : Metadata) (f : Field) : Option Metadata :=
  match f.number with
  | 1 => f.payload.int32?.map fun n => { m with version := n }
  | 2 => do
    let tool ← readMessage (nestingLimit - 2) ToolInfo.absorb (m.tool.getD {}) (← f.payload.bytes?)
    return { m with tool := some tool }
  | 3 => f.payload.string?.map fun s => { m with projectRoot := s }
  | 4 => f.payload.int32?.map fun n => { m with textEncoding := n }
  | _ => some m

def Relationship.absorb (r : Relationship) (f : Field) : Option Relationship :=
  match f.number with
  | 1 => f.payload.string?.map fun s => { r with symbol := s }
  | 2 => f.payload.bool?.map fun b => { r with isReference := b }
  | 3 => f.payload.bool?.map fun b => { r with isImplementation := b }
  | 4 => f.payload.bool?.map fun b => { r with isTypeDefinition := b }
  | 5 => f.payload.bool?.map fun b => { r with isDefinition := b }
  | _ => some r

/-- `depth` counts the messages around this one. -/
def SymbolInformation.absorb (depth : Nat) (i : SymbolInformation) (f : Field) :
    Option SymbolInformation :=
  match f.number with
  | 1 => f.payload.string?.map fun s => { i with symbol := s }
  | 3 => f.payload.string?.map fun s => { i with documentation := i.documentation ++ [s] }
  | 4 => do
    let r ← readMessage (nestingLimit - depth - 1) Relationship.absorb {} (← f.payload.bytes?)
    return { i with relationships := i.relationships ++ [r] }
  | 5 => f.payload.int32?.map fun n => { i with kind := n }
  | 6 => f.payload.string?.map fun s => { i with displayName := s }
  | 8 => f.payload.string?.map fun s => { i with enclosingSymbol := s }
  | _ => some i

def Occurrence.absorb (o : Occurrence) (f : Field) : Option Occurrence :=
  match f.number with
  | 1 => f.payload.int32s?.map fun ns => { o with range := o.range ++ ns }
  | 2 => f.payload.string?.map fun s => { o with symbol := s }
  | 3 => f.payload.int32?.map fun n => { o with roles := n }
  | 4 => f.payload.string?.map fun s =>
      { o with overrideDocumentation := o.overrideDocumentation ++ [s] }
  | 5 => f.payload.int32?.map fun n => { o with syntaxKind := n }
  | 7 => f.payload.int32s?.map fun ns => { o with enclosingRange := o.enclosingRange ++ ns }
  | _ => some o

def Document.absorb (d : Document) (f : Field) : Option Document :=
  match f.number with
  | 1 => f.payload.string?.map fun s => { d with path := s }
  | 2 => do
    let o ← readMessage (nestingLimit - 2) Occurrence.absorb {} (← f.payload.bytes?)
    return { d with occurrences := d.occurrences ++ [o] }
  | 3 => do
    let i ← readMessage (nestingLimit - 2) (SymbolInformation.absorb 2) {} (← f.payload.bytes?)
    return { d with symbols := d.symbols ++ [i] }
  | 4 => f.payload.string?.map fun s => { d with language := s }
  | 5 => f.payload.string?.map fun s => { d with text := s }
  | _ => some d

namespace Index

def absorb (x : Index) (f : Field) : Option Index :=
  match f.number with
  | 1 => do
    let m ← readMessage (nestingLimit - 1) Metadata.absorb (x.metadata.getD {}) (← f.payload.bytes?)
    return { x with metadata := some m }
  | 2 => do
    let d ← readMessage (nestingLimit - 1) Document.absorb {} (← f.payload.bytes?)
    return { x with documents := x.documents ++ [d] }
  | 3 => do
    let i ← readMessage (nestingLimit - 1) (SymbolInformation.absorb 1) {} (← f.payload.bytes?)
    return { x with externalSymbols := x.externalSymbols ++ [i] }
  | _ => some x

def decode? (s : List UInt8) : Option Index := readMessage nestingLimit absorb {} s

end Index

end CodeAtlas
