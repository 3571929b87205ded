import CodeAtlas.Decimal.Read
import CodeAtlas.Settings.Layer
import CodeAtlas.Text.Characters
import CodeAtlas.Text.Lower
import CodeAtlas.Toml.Text

/-! Settings from environment variables. The name of a variable spells the path to a setting, its
value is read as what it looks like. -/

namespace CodeAtlas.Environment

open Toml (Value)

def isSpace (c : Char) : Bool :=
  c = ' ' || c = '\t' || c = '\n' || c = '\r' || c = '\x0c'

def skipSpace (text : List Char) : List Char := text.dropWhile isSpace

def escape? : List Char → Option (Char × List Char)
  | 'u' :: rest => code? 4 rest
  | 'U' :: rest => code? 8 rest
  | c :: rest => (Toml.escaped? c).map fun d => (d, rest)
  | [] => none
where
  code? (count : Nat) (text : List Char) : Option (Char × List Char) := do
    let digits ← (text.take count).mapM Text.hexValue?
    let value := digits.foldl (fun n d => n * 16 + d) 0
    if digits.length = count && value.isValidChar then
      return (Char.ofNat value, text.drop count)
    else none

def splitQuoted? (escaped : Bool) : List Char → Option (List Char × List Char)
  | [] => none
  | c :: rest =>
    if escaped then (splitQuoted? false rest).map fun (s, r) => (c :: s, r)
    else if c = '"' then some ([], rest)
    else (splitQuoted? (c = '\\') rest).map fun (s, r) => (c :: s, r)

/-- Resolves escapes; `fuel` bounds the characters. -/
def unescape? : Nat → List Char → Option (List Char)
  | _, [] => some []
  | 0, _ => none
  | fuel + 1, c :: rest =>
    if c = '\\' then do
      let (d, rest) ← escape? rest
      return d :: (← unescape? fuel rest)
    else if Toml.isPlain c then (unescape? fuel rest).map (c :: ·)
    else none

def cut (bytes : Nat) : List Char → List Char
  | [] => []
  | c :: rest => if c.utf8Size ≤ bytes then c :: cut (bytes - c.utf8Size) rest else []

/-- What a quoted text says. In front of the first escape it keeps as many bytes as there are
characters, so that only ASCII is kept whole there. -/
def unquote? (inner : List Char) : Option (List Char) :=
  match inner.span (· ≠ '\\') with
  | (plain, []) => if plain.all Toml.isPlain then some plain else none
  | (plain, rest) =>
    if plain.all Toml.isPlain then
      (unescape? rest.length rest).map fun tail => cut plain.length plain ++ tail
    else none

def quoted? (text : List Char) : Option (String × List Char) :=
  match text with
  | '"' :: rest => do
    let (inner, rest) ← splitQuoted? false rest
    return (String.ofList (← unquote? inner), rest)
  | _ => none

def character? : List Char → Option (Char × List Char)
  | '\'' :: c :: '\'' :: rest => some (c, rest)
  | _ => none

def isKeyChar (c : Char) : Bool := c.isAlphanum || c = '_' || c = '-'

def key? (text : List Char) : Option (String × List Char) :=
  match text with
  | '"' :: _ => quoted? text
  | _ => match text.span isKeyChar with
    | ([], _) => none
    | (key, rest) => some (String.ofList key, rest)

def isSeparator (c : Char) : Bool := c = ',' || c = '\x7b' || c = '\x7d' || c = '[' || c = ']'

def integer? (text : List Char) : Option Int :=
  let (negative, digits) := match text with
    | '-' :: r => (true, r)
    | '+' :: r => (false, r)
    | r => (false, r)
  if digits.isEmpty || !digits.all Char.isDigit then none
  else
    let n : Int := Decimal.ofDigits digits
    if negative then (if n ≤ 9223372036854775808 then some (-n) else none)
    else if n < UInt64.size then some n else none

def bare (text : List Char) : Value :=
  let word := Text.trim text
  let number := if word.contains '.' then (Decimal.parseFloat? word).map Value.float else none
  match number.or ((integer? word).map .integer) with
  | some v => v
  | none => .text (String.ofList word)

mutual

def value? (fuel : Nat) (text : List Char) : Option (Value × List Char) :=
  match fuel with
  | 0 => none
  | fuel + 1 => do
    let (v, rest) ← match skipSpace text with
      | 't' :: 'r' :: 'u' :: 'e' :: rest => some (Value.bool true, rest)
      | 'f' :: 'a' :: 'l' :: 's' :: 'e' :: rest => some (Value.bool false, rest)
      | '\x7b' :: rest =>
        (fields? fuel [] rest).map fun (fields, rest) => (Value.table fields, rest)
      | '[' :: rest => (items? fuel rest).map fun (items, rest) => (Value.list items, rest)
      | '"' :: rest => (quoted? ('"' :: rest)).map fun (s, rest) => (Value.text s, rest)
      | '\'' :: rest => (character? ('\'' :: rest)).map fun (c, rest) => (Value.character c, rest)
      | text =>
        let (word, rest) := text.span fun c => !isSeparator c
        some (bare word, rest)
    return (v, skipSpace rest)

def items? (fuel : Nat) (text : List Char) : Option (List Value × List Char) :=
  match fuel with
  | 0 => none
  | fuel + 1 =>
    match text with
    | ']' :: rest => some ([], rest)
    | text => do
      let (v, rest) ← value? fuel text
      match rest with
      | ',' :: rest =>
        let (vs, rest) ← items? fuel rest
        return (v :: vs, rest)
      | ']' :: rest => return ([v], rest)
      | _ => none

def fields? (fuel : Nat) (fields : List (String × Value)) (text : List Char) :
    Option (List (String × Value) × List Char) :=
  match fuel with
  | 0 => none
  | fuel + 1 =>
    match text with
    | '\x7d' :: rest => some (fields, rest)
    | text => do
      let (key, rest) ← key? (skipSpace text)
      match skipSpace rest with
      | '=' :: rest =>
        let (v, rest) ← value? fuel rest
        let fields := Value.put key v fields
        match rest with
        | ',' :: rest => fields? fuel fields rest
        | '\x7d' :: rest => return (fields, rest)
        | _ => none
      | _ => none

end

/-- What a variable says; a text that reads as nothing else stands for itself. -/
def value (text : String) : Value :=
  match value? (text.length + 1) text.toList with
  | some (v, []) => v
  | _ => .text text

def mark : String := "symdex_"

def splitName : List Char → List (List Char)
  | [] => [[]]
  | '_' :: '_' :: rest => [] :: splitName rest
  | c :: rest =>
    if c = '.' then [] :: splitName rest
    else match splitName rest with
      | [] => [[c]]
      | part :: parts => (c :: part) :: parts

/-- The path that a name spells, in any case; `none` for names of other programs, and for names with
an empty part. Blanks around the name and around its part behind the mark do not count. -/
def path? (name : String) : Option (List String) :=
  let lower := Text.lower (Text.trim name.toList)
  if mark.toList.isPrefixOf lower then
    let parts := splitName (Text.trim (lower.drop mark.length))
    if parts.any (·.isEmpty) then none else some (parts.map String.ofList)
  else none

def layer (environment : List (String × String)) : Value :=
  environment.foldl (fun below (name, text) => match path? name with
    | some path => below.overlay (.nest path (value text))
    | none => below) (.table [])

end CodeAtlas.Environment
