import CodeAtlas.Toml.Number
import CodeAtlas.Toml.Table

/-! Reads configuration text: keys, values, and the lines of a document. -/

namespace CodeAtlas.Toml

def skipBlanks (text : List Char) : List Char := text.dropWhile isBlank

def skipComment : List Char → List Char
  | '#' :: rest => rest.dropWhile isPlain
  | text => text

def lineEnd? (text : List Char) : Option (List Char) :=
  match skipComment (skipBlanks text) with
  | [] => some []
  | '\n' :: rest => some rest
  | '\r' :: '\n' :: rest => some rest
  | _ => none

def isKeyChar (c : Char) : Bool := c.isAlphanum || c = '_' || c = '-'

def simpleKey? (text : List Char) : Option (String × List Char) :=
  match lineString? text with
  | some (key, rest) => some (String.ofList key, rest)
  | none => match text.span isKeyChar with
    | ([], _) => none
    | (key, rest) => some (String.ofList key, rest)

def depthLimit : Nat := 80

def keyParts : Nat → List Char → Option (List String × List Char)
  | 0, _ => none
  | fuel + 1, text => do
    let (part, rest) ← simpleKey? (skipBlanks text)
    match skipBlanks rest with
    | '.' :: rest =>
      let (parts, rest) ← keyParts fuel rest
      return (part :: parts, rest)
    | rest => return ([part], rest)

def key? (text : List Char) : Option (List String × List Char) := keyParts (depthLimit - 1) text

def skipSpace : Nat → List Char → List Char
  | 0, text => text
  | fuel + 1, text =>
    match skipBlanks text with
    | '\n' :: rest => skipSpace fuel rest
    | '\r' :: '\n' :: rest => skipSpace fuel rest
    | '#' :: rest => skipSpace fuel (rest.dropWhile isPlain)
    | rest => rest

def assignKey (parts : List String) (v : Value) (items : Items) : Option Items :=
  match parts.getLast? with
  | none => none
  | some last => items.assign last v parts.dropLast

mutual

/-- Reads a value nested at most `depth` deep; `fuel` bounds the values inside it. -/
def value? (fuel depth : Nat) (text : List Char) : Option (Value × List Char) :=
  match fuel with
  | 0 => none
  | fuel + 1 =>
    match text with
    | '"' :: _ | '\'' :: _ => (string? text).map fun (s, rest) => (.text (String.ofList s), rest)
    | 't' :: 'r' :: 'u' :: 'e' :: rest => some (.bool true, rest)
    | 'f' :: 'a' :: 'l' :: 's' :: 'e' :: rest => some (.bool false, rest)
    | '[' :: rest =>
      if depth ≤ 1 then none
      else (items? fuel (depth - 1) rest).map fun (items, rest) => (.list items, rest)
    | '\x7b' :: rest =>
      if depth ≤ 1 then none
      else match skipBlanks rest with
        | '\x7d' :: rest => some (.table [], rest)
        | rest => (pairs? fuel (depth - 1) [] rest).map fun (items, rest) =>
          (.table (fieldsOf items), rest)
    | text => match date? text with
      | some (date, rest) => some (.date (String.ofList date), rest)
      | none => number? text

def items? (fuel depth : Nat) (text : List Char) : Option (List Value × List Char) :=
  match fuel with
  | 0 => none
  | fuel + 1 =>
    match skipSpace fuel text with
    | ']' :: rest => some ([], rest)
    | text => do
      let (v, rest) ← value? fuel depth text
      match skipSpace fuel rest with
      | ',' :: rest =>
        let (vs, rest) ← items? fuel depth rest
        return (v :: vs, rest)
      | ']' :: rest => return ([v], rest)
      | _ => none

def pairs? (fuel depth : Nat) (items : Items) (text : List Char) : Option (Items × List Char) :=
  match fuel with
  | 0 => none
  | fuel + 1 => do
    let (key, rest) ← key? text
    let rest ← expect? '=' rest
    let (v, rest) ← value? fuel depth (skipBlanks rest)
    let items ← assignKey key v items
    match skipBlanks rest with
    | ',' :: rest => pairs? fuel depth items rest
    | '\x7d' :: rest => return (items, rest)
    | _ => none

end

structure Draft where
  root : Items := []
  header : List String := []

namespace Draft

def openAt (d : Draft) (f : String → Items → Option Items) (header : List String) :
    Option Draft := do
  let last ← header.getLast?
  return ⟨← d.root.within (f last) header.dropLast, header⟩

def assign (d : Draft) (key : List String) (v : Value) : Option Draft := do
  return { d with root := ← d.root.within (assignKey key v) d.header }

def next? (d : Draft) (text : List Char) : Option (Draft × List Char) :=
  match text with
  | '[' :: '[' :: rest => do
    let (header, rest) ← key? rest
    let rest ← expect? ']' rest
    let rest ← expect? ']' rest
    return (← d.openAt Items.openElement header, ← lineEnd? rest)
  | '[' :: rest => do
    let (header, rest) ← key? rest
    let rest ← expect? ']' rest
    return (← d.openAt Items.openTable header, ← lineEnd? rest)
  | text => match lineEnd? text with
    | some rest => some (d, rest)
    | none => do
      let (key, rest) ← key? text
      let rest ← expect? '=' rest
      let (v, rest) ← value? (text.length + 1) depthLimit (skipBlanks rest)
      return (← d.assign key v, ← lineEnd? rest)

def readAll : Nat → Draft → List Char → Option Draft
  | 0, _, _ => none
  | fuel + 1, d, text =>
    match skipBlanks text with
    | [] => some d
    | text => do
      let (d, rest) ← d.next? text
      readAll fuel d rest

end Draft

/-- The table of a document, which may start with a byte order mark. -/
def parse? (text : String) : Option (List (String × Value)) :=
  let chars := match text.toList with
    | '\uFEFF' :: rest => rest
    | chars => chars
  (Draft.readAll (chars.length + 1) {} chars).map fun d => fieldsOf d.root

end CodeAtlas.Toml
