import CodeAtlas.Json.Number
import CodeAtlas.Json.Token

/-! JSON values, built from tokens by a machine that keeps the open arrays and objects on a stack. A
text that stops being JSON gives a value too, broken at that place, so that whoever reads the value
meets problems in the order of the text. -/

namespace CodeAtlas.Json

inductive Value where
  | null
  | bool (value : Bool)
  | number (text : List Char)
  /-- Without a text where half a surrogate pair stands alone. -/
  | string (text : Option (List Char))
  | array (items : List Value)
  /-- Fields in order and with repetitions. -/
  | object (fields : List (Option (List Char) × Value))
  | broken

abbrev Field := Option (List Char) × Value

/-- An array or object that is not closed yet, latest parts first. -/
inductive Frame where
  | array (items : List Value)
  | object (fields : List Field) (key : Option (List Char))

inductive BuildPhase where
  /-- A value comes next, or, where the array is empty, its end. -/
  | value (closable : Bool)
  | follow
  | key (closable : Bool)
  | colon
  | done (value : Value) (surplus : Bool)

structure Builder where
  phase : BuildPhase := .value false
  frames : List Frame := []

namespace Builder

def put (v : Value) : List Frame → Builder
  | [] => ⟨.done v false, []⟩
  | .array items :: rest => ⟨.follow, .array (v :: items) :: rest⟩
  | .object fields key :: rest => ⟨.follow, .object ((key, v) :: fields) none :: rest⟩

def wrap (v : Value) : List Frame → Value
  | [] => v
  | .array items :: rest => wrap (.array (v :: items).reverse) rest
  | .object fields key :: rest => wrap (.object ((key, v) :: fields).reverse) rest

def abandon (b : Builder) : Builder := ⟨.done (wrap .broken b.frames) false, []⟩

def closeArray (b : Builder) : Builder :=
  match b.frames with
  | .array items :: rest => put (.array items.reverse) rest
  | _ => b.abandon

def closeObject (b : Builder) : Builder :=
  match b.frames with
  | .object fields _ :: rest => put (.object fields.reverse) rest
  | _ => b.abandon

def beginValue (b : Builder) (closable : Bool) : Token → Builder
  | .null => put .null b.frames
  | .bool x => put (.bool x) b.frames
  | .number text => put (.number text) b.frames
  | .string text => put (.string (some text)) b.frames
  | .brokenString => put (.string none) b.frames
  | .openArray => ⟨.value true, .array [] :: b.frames⟩
  | .openObject => ⟨.key true, .object [] none :: b.frames⟩
  | .closeArray => if closable then b.closeArray else b.abandon
  | _ => b.abandon

def beginField (b : Builder) (closable : Bool) (t : Token) : Builder :=
  match t, b.frames with
  | .string key, .object fields _ :: rest => ⟨.colon, .object fields (some key) :: rest⟩
  | .brokenString, .object fields _ :: rest => ⟨.colon, .object fields none :: rest⟩
  | .closeObject, _ => if closable then b.closeObject else b.abandon
  | _, _ => b.abandon

def step (b : Builder) (t : Token) : Builder :=
  match b.phase with
  | .done v _ => ⟨.done v true, []⟩
  | .value closable => b.beginValue closable t
  | .key closable => b.beginField closable t
  | .colon => if t = .colon then { b with phase := .value false } else b.abandon
  | .follow =>
    match t, b.frames with
    | .comma, .array _ :: _ => { b with phase := .value false }
    | .comma, .object _ _ :: _ => { b with phase := .key false }
    | .closeArray, _ => b.closeArray
    | .closeObject, _ => b.closeObject
    | _, _ => b.abandon

def finish (b : Builder) : Value × Bool :=
  match b.phase with
  | .done v surplus => (v, surplus)
  | _ => (wrap .broken b.frames, false)

end Builder

namespace Value

/-- The value of a text, and whether anything but space follows it. -/
def parse (text : List Char) : Value × Bool :=
  ((Token.scan text).foldl Builder.step {}).finish

def separated : List (List Token) → List Token
  | [] => []
  | [part] => part
  | part :: rest => part ++ .comma :: separated rest

def keyToken : Option (List Char) → Token
  | some key => .string key
  | none => .brokenString

mutual

def tokens : Value → List Token
  | .null => [.null]
  | .bool x => [.bool x]
  | .number text => [.number text]
  | .string text => [keyToken text]
  | .array items => .openArray :: separated (itemTokens items) ++ [.closeArray]
  | .object fields => .openObject :: separated (fieldTokens fields) ++ [.closeObject]
  | .broken => [.bad]

def itemTokens : List Value → List (List Token)
  | [] => []
  | v :: rest => tokens v :: itemTokens rest

def fieldTokens : List Field → List (List Token)
  | [] => []
  | (key, v) :: rest => (keyToken key :: .colon :: tokens v) :: fieldTokens rest

end

def write (v : Value) : String := String.ofList (v.tokens.flatMap Token.write)

mutual

/-- Whether the text of the value is JSON, whatever its strings and numbers stand for. -/
def isWhole : Value → Bool
  | .broken => false
  | .array items => itemsWhole items
  | .object fields => fieldsWhole fields
  | _ => true

def itemsWhole : List Value → Bool
  | [] => true
  | v :: rest => isWhole v && itemsWhole rest

def fieldsWhole : List Field → Bool
  | [] => true
  | (_, v) :: rest => isWhole v && fieldsWhole rest

end

mutual

/-- Whether all of the value can be taken in: its strings are text, its numbers are in range, and it
is nested no deeper than `depth`. -/
def isReadable (depth : Nat) : Value → Bool
  | .broken => false
  | .string text => text.isSome
  | .number text => (Number.ofText? text).isSome
  | .array items => depth != 0 && itemsReadable (depth - 1) items
  | .object fields => depth != 0 && fieldsReadable (depth - 1) fields
  | _ => true

def itemsReadable (depth : Nat) : List Value → Bool
  | [] => true
  | v :: rest => isReadable depth v && itemsReadable depth rest

def fieldsReadable (depth : Nat) : List Field → Bool
  | [] => true
  | (key, v) :: rest => key.isSome && isReadable depth v && fieldsReadable depth rest

end

end Value

end CodeAtlas.Json
