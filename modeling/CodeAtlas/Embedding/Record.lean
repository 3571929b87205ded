import CodeAtlas.Decimal.Shortest
import CodeAtlas.Embedding.Basic
import CodeAtlas.Json.Value
import CodeAtlas.Symbol.Parser

/-! The JSON form of embeddings. An entry is an object, or an array of its fields in order; the kind
is an object tagged by `type`, or an array that starts with the tag. Fields of other names are
passed over. -/

namespace CodeAtlas

open Json (Value Field Number)

class VectorComponent (κ : Type) where
  /-- The text of the number; `none` for what is no number to JSON. -/
  text? : κ → Option (List Char)
  ofNumber : Number → κ

/-- The shortest decimal that reads back; what is not finite is no number. -/
instance : VectorComponent Float32 where
  text? x :=
    if x.isFinite then some (Decimal.Layout.json.write (.ofFloat32 x)).toList else none
  ofNumber := Number.toFloat32

namespace Record

def fault : Value → RecordFault
  | .broken | .string none => .malformed
  | .number text => if (Number.ofText? text).isNone then .malformed else .mismatch
  | _ => .mismatch

def text : Value → Except RecordFault String
  | .string (some s) => .ok (String.ofList s)
  | v => .error (fault v)

def symbol (v : Value) : Except RecordFault Symbol := do
  match Symbol.parse? (← text v) with
  | .ok s => return s
  | .error _ => throw .mismatch

def list {β : Type} (item : Value → Except RecordFault β) : Value → Except RecordFault (List β)
  | .array items => items.mapM item
  | v => .error (fault v)

section Vector

variable {κ : Type} [VectorComponent κ]

def component : Value → Except RecordFault κ
  | .number text => match Number.ofText? text with
    | some n => .ok (VectorComponent.ofNumber n)
    | none => .error .malformed
  | v => .error (fault v)

end Vector

/-- How deep values inside a kind may be nested. -/
def kindDepth : Nat := 124

def tag (v : Value) : Except RecordFault EmbeddingSlot := do
  match ← text v with
  | "code" => return .code
  | "doc" => return .doc
  | _ => throw .mismatch

def once {β : Type} (seen : Option β) (read : Except RecordFault β) :
    Except RecordFault (Option β) :=
  if seen.isSome then .error .mismatch else some <$> read

def need {β : Type} : Option β → Except RecordFault β
  | some x => .ok x
  | none => .error .mismatch

def taggedFields (seen : Option EmbeddingSlot) (others : List Field) :
    List Field → Except RecordFault (EmbeddingSlot × List Field)
  | [] => do return (← need seen, others)
  | (none, _) :: _ => .error .malformed
  | (some name, v) :: rest =>
    if String.ofList name = "type" then do taggedFields (← once seen (tag v)) others rest
    else if v.isReadable kindDepth then taggedFields seen (others ++ [(some name, v)]) rest
    else .error .malformed

def docFields (summary context : Option String) : List Field → Except RecordFault EmbeddingKind
  | [] => do return .doc (← need summary) (← need context)
  | (name, v) :: rest =>
    match name.map String.ofList with
    | some "summary" => do docFields (← once summary (text v)) context rest
    | some "context" => do docFields summary (← once context (text v)) rest
    | _ => docFields summary context rest

def kind : Value → Except RecordFault EmbeddingKind
  | .object fields => do
    match ← taggedFields none [] fields with
    | (.code, _) => return .code
    | (.doc, others) => docFields none none others
  | .array [] => .error .mismatch
  | .array (first :: rest) => do
    let slot ← tag first
    if !Value.itemsReadable kindDepth rest then throw .malformed
    match slot, rest with
    | .code, [] => return .code
    | .doc, [summary, context] => return .doc (← text summary) (← text context)
    | _, _ => throw .mismatch
  | v => .error (fault v)

variable {κ : Type} [VectorComponent κ]

structure Draft (κ : Type) where
  symbol : Option Symbol := none
  document : Option String := none
  vector : Option (List κ) := none
  kind : Option EmbeddingKind := none

def entryFields (d : Draft κ) : List Field → Except RecordFault (Embedding κ)
  | [] => do return ⟨← need d.symbol, ← need d.document, ← need d.vector, ← need d.kind⟩
  | (none, _) :: _ => .error .malformed
  | (some name, v) :: rest =>
    match String.ofList name with
    | "key" => do entryFields { d with symbol := ← once d.symbol (Record.symbol v) } rest
    | "document" => do entryFields { d with document := ← once d.document (text v) } rest
    | "vector" => do entryFields { d with vector := ← once d.vector (list component v) } rest
    | "kind" => do entryFields { d with kind := ← once d.kind (Record.kind v) } rest
    | _ => if v.isWhole then entryFields d rest else .error .malformed

def next {β : Type} (read : Value → Except RecordFault β) :
    List Value → Except RecordFault (β × List Value)
  | [] => .error .mismatch
  | v :: rest => do return (← read v, rest)

def entryItems (items : List Value) : Except RecordFault (Embedding κ) := do
  let (symbol, rest) ← next Record.symbol items
  let (document, rest) ← next text rest
  let (vector, rest) ← next (list component) rest
  let (kind, rest) ← next Record.kind rest
  if rest.isEmpty then return ⟨symbol, document, vector, kind⟩ else throw .malformed

def entry : Value → Except RecordFault (Embedding κ)
  | .object fields => entryFields {} fields
  | .array items => entryItems items
  | v => .error (fault v)

def parse (s : String) : Except RecordFault (List (Embedding κ)) := do
  let (value, surplus) := Value.parse s.toList
  let entries ← list entry value
  if surplus then throw .malformed
  return entries

def ofText (s : String) : Value := .string (some s.toList)

def field (name : String) (v : Value) : Field := (some name.toList, v)

def ofKind : EmbeddingKind → Value
  | .code => .object [field "type" (ofText "code")]
  | .doc summary context => .object
    [field "type" (ofText "doc"), field "summary" (ofText summary),
      field "context" (ofText context)]

def ofComponent (x : κ) : Value :=
  match VectorComponent.text? x with
  | some text => .number text
  | none => .null

def ofEntry (e : Embedding κ) : Value := .object [
  field "key" (ofText e.symbol.uri), field "document" (ofText e.document),
  field "vector" (.array (e.vector.map ofComponent)), field "kind" (ofKind e.kind)]

def write (es : List (Embedding κ)) : String := (Value.array (es.map ofEntry)).write

end Record

end CodeAtlas
