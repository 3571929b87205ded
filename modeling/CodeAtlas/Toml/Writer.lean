import CodeAtlas.Decimal.Shortest

/-! Writes keys and values of configuration text. A string is written without escapes where one of
the quoted forms allows it. -/

namespace CodeAtlas.Toml

structure TextTraits where
  backslash : Bool
  newline : Bool
  /-- Controls other than the tab and the line feed. -/
  control : Bool
  singleQuotes : Nat
  doubleQuotes : Nat

def longestRun (c : Char) (count : Nat) : List Char → Nat
  | [] => count
  | d :: rest => if d = c then longestRun c (count + 1) rest else max count (longestRun c 0 rest)

def isControl (c : Char) : Bool := (c.toNat < 0x20 && c ≠ '\t') || c.toNat = 0x7F

def TextTraits.ofText (text : List Char) : TextTraits where
  backslash := text.contains '\\'
  newline := text.contains '\n'
  control := text.any fun c => isControl c && c ≠ '\n'
  singleQuotes := longestRun '\'' 0 text
  doubleQuotes := longestRun '"' 0 text

def hexDigit (n : Nat) : Char := (Nat.digitChar n).toUpper

def escapeControl (c : Char) : List Char :=
  if c = '\x08' then ['\\', 'b']
  else if c = '\t' then ['\\', 't']
  else if c = '\n' then ['\\', 'n']
  else if c = '\x0c' then ['\\', 'f']
  else if c = '\r' then ['\\', 'r']
  else ['\\', 'u', '0', '0', hexDigit (c.toNat / 16), hexDigit (c.toNat % 16)]

/-- Escapes a text for double quotes: `run` quotes stand before it, and `allowed` quotes in a row
stay as they are. In a text of several lines so does the line feed. -/
def escapeText (multiline : Bool) (allowed : Nat) (run : Nat) : List Char → List Char
  | [] => []
  | c :: rest =>
    if c = '"' then
      if run < allowed then '"' :: escapeText multiline allowed (run + 1) rest
      else '\\' :: '"' :: escapeText multiline allowed 0 rest
    else
      let written :=
        if c = '\\' then ['\\', '\\']
        else if (c = '\n' && multiline) || (c ≠ '\t' && !isControl c) then [c]
        else escapeControl c
      written ++ escapeText multiline allowed 0 rest

def basic (text : List Char) : List Char := '"' :: escapeText false 0 0 text ++ ['"']

def longBasic (text : List Char) (newline : Bool) : List Char :=
  ['"', '"', '"'] ++ (if newline then ['\n'] else []) ++ escapeText true 2 0 text ++ ['"', '"', '"']

def literal (text : List Char) : List Char := '\'' :: text ++ ['\'']

def longLiteral (text : List Char) (newline : Bool) : List Char :=
  ['\'', '\'', '\''] ++ (if newline then ['\n'] else []) ++ text ++ ['\'', '\'', '\'']

def writeText (s : String) : String :=
  let text := s.toList
  let t := TextTraits.ofText text
  String.ofList <|
    if !t.control && !t.backslash && t.doubleQuotes = 0 && !t.newline then basic text
    else if !t.control && t.singleQuotes = 0 && !t.newline then literal text
    else if !t.control && !t.backslash && t.doubleQuotes ≤ 2 then longBasic text t.newline
    else if !t.control && t.singleQuotes ≤ 2 then longLiteral text t.newline
    else if t.newline then longBasic text true
    else basic text

def isBareKeyChar (c : Char) : Bool := c.isAlphanum || c = '_' || c = '-'

def writeKey (s : String) : String :=
  let text := s.toList
  let t := TextTraits.ofText text
  String.ofList <|
    if !text.isEmpty && text.all isBareKeyChar then text
    else if !t.control && !t.newline && t.singleQuotes = 0 &&
        (t.backslash || 0 < t.doubleQuotes) then
      literal text
    else basic text

def writeFloat (x : Float) : String := Decimal.Layout.settings.write (.ofFloat x)

def writeNatural? (n : Nat) : Option String :=
  if n < UInt64.size / 2 then some (toString n) else none

def writeBool (b : Bool) : String := if b then "true" else "false"

end CodeAtlas.Toml
