import CodeAtlas.Text.Characters

/-! JSON text cut into tokens, by a scanner that goes over the text once. -/

namespace CodeAtlas.Json

inductive Token where
  | openArray | closeArray | openObject | closeObject | comma | colon
  | null
  | bool (value : Bool)
  | number (text : List Char)
  | string (text : List Char)
  /-- A string in which an escape stands for half a surrogate pair. -/
  | brokenString
  | bad
  deriving Repr, DecidableEq

inductive NumberPhase where
  | sign | zero | whole | point | fraction | exponent | exponentSign | power
  /-- After a leading zero comes no digit. -/
  | broken
  deriving Repr, DecidableEq

namespace NumberPhase

def first? (c : Char) : Option NumberPhase :=
  if c = '-' then some .sign
  else if c = '0' then some .zero
  else if c.isDigit then some .whole
  else none

def next? (p : NumberPhase) (c : Char) : Option NumberPhase :=
  match p with
  | .sign => if c = '0' then some .zero else if c.isDigit then some .whole else none
  | .zero => if c.isDigit then some .broken else afterWhole c
  | .whole => if c.isDigit then some .whole else afterWhole c
  | .point => if c.isDigit then some .fraction else none
  | .fraction => if c.isDigit then some .fraction else afterFraction c
  | .exponent =>
    if c = '+' || c = '-' then some .exponentSign else if c.isDigit then some .power else none
  | .exponentSign | .power => if c.isDigit then some .power else none
  | .broken => none
where
  afterFraction (c : Char) : Option NumberPhase :=
    if c = 'e' || c = 'E' then some .exponent else none
  afterWhole (c : Char) : Option NumberPhase :=
    if c = '.' then some .point else afterFraction c

def complete : NumberPhase → Bool
  | .zero | .whole | .fraction | .power => true
  | _ => false

end NumberPhase

inductive Piece where
  | char (c : Char)
  | half (code : Nat)
  deriving Repr, DecidableEq

namespace Piece

def isHigh (code : Nat) : Bool := 0xD800 ≤ code && code < 0xDC00

def isLow (code : Nat) : Bool := 0xDC00 ≤ code && code < 0xE000

/-- Adds a code unit in front of the pieces before it, latest first; the low half of a pair
completes the high one. -/
def pushUnit (code : Nat) (pieces : List Piece) : List Piece :=
  if isLow code then
    match pieces with
    | .half high :: rest =>
      if isHigh high then
        .char (Char.ofNat (0x10000 + (high - 0xD800) * 0x400 + (code - 0xDC00))) :: rest
      else .half code :: pieces
    | _ => .half code :: pieces
  else if isHigh code then .half code :: pieces
  else .char (Char.ofNat code) :: pieces

def char? : Piece → Option Char
  | .char c => some c
  | .half _ => none

end Piece

/-- What the scanner is in the middle of; texts in the making have the latest character first. -/
inductive ScanPhase where
  | between
  | word (rest : List Char) (token : Token)
  | number (phase : NumberPhase) (text : List Char)
  | string (pieces : List Piece)
  | escape (pieces : List Piece)
  | unicode (pieces : List Piece) (missing code : Nat)
  | stopped
  deriving Repr, DecidableEq

def isSpace (c : Char) : Bool := c = ' ' || c = '\n' || c = '\t' || c = '\r'

def escaped? : Char → Option Char
  | '"' => some '"'
  | '\\' => some '\\'
  | '/' => some '/'
  | 'b' => some '\x08'
  | 'f' => some '\x0c'
  | 'n' => some '\n'
  | 'r' => some '\r'
  | 't' => some '\t'
  | _ => none

structure Scanner where
  phase : ScanPhase := .between
  /-- Latest first. -/
  found : List Token := []

namespace Scanner

def stop (s : Scanner) : Scanner := ⟨.stopped, .bad :: s.found⟩

def emit (s : Scanner) (t : Token) : Scanner := ⟨.between, t :: s.found⟩

def start (s : Scanner) (c : Char) : Scanner :=
  if isSpace c then { s with phase := .between }
  else match c with
    | '[' => s.emit .openArray
    | ']' => s.emit .closeArray
    | '\x7b' => s.emit .openObject
    | '\x7d' => s.emit .closeObject
    | ',' => s.emit .comma
    | ':' => s.emit .colon
    | '"' => { s with phase := .string [] }
    | 'n' => { s with phase := .word ['u', 'l', 'l'] .null }
    | 't' => { s with phase := .word ['r', 'u', 'e'] (.bool true) }
    | 'f' => { s with phase := .word ['a', 'l', 's', 'e'] (.bool false) }
    | c => match NumberPhase.first? c with
      | some phase => { s with phase := .number phase [c] }
      | none => s.stop

def endString (s : Scanner) (pieces : List Piece) : Scanner :=
  s.emit (match pieces.reverse.mapM Piece.char? with
    | some text => .string text
    | none => .brokenString)

def step (s : Scanner) (c : Char) : Scanner :=
  match s.phase with
  | .stopped => s
  | .between => s.start c
  | .word [] _ => s.stop
  | .word [last] token => if c = last then s.emit token else s.stop
  | .word (expected :: rest) token =>
    if c = expected then { s with phase := .word rest token } else s.stop
  | .number phase text =>
    match phase.next? c with
    | some next => { s with phase := .number next (c :: text) }
    | none => if phase.complete then (s.emit (.number text.reverse)).start c else s.stop
  | .string pieces =>
    if c = '"' then s.endString pieces
    else if c = '\\' then { s with phase := .escape pieces }
    else if c.toNat < 0x20 then s.stop
    else { s with phase := .string (.char c :: pieces) }
  | .escape pieces =>
    if c = 'u' then { s with phase := .unicode pieces 4 0 }
    else match escaped? c with
      | some d => { s with phase := .string (.char d :: pieces) }
      | none => s.stop
  | .unicode pieces missing code =>
    match Text.hexValue? c with
    | none => s.stop
    | some digit =>
      let code := code * 16 + digit
      if missing ≤ 1 then { s with phase := .string (Piece.pushUnit code pieces) }
      else { s with phase := .unicode pieces (missing - 1) code }

def finish (s : Scanner) : List Token :=
  (match s.phase with
    | .between | .stopped => s.found
    | .number phase text =>
      if phase.complete then .number text.reverse :: s.found else .bad :: s.found
    | _ => .bad :: s.found).reverse

end Scanner

namespace Token

def scan (text : List Char) : List Token := (text.foldl Scanner.step {}).finish

def escape (c : Char) : List Char :=
  match c with
  | '"' => ['\\', '"']
  | '\\' => ['\\', '\\']
  | '\x08' => ['\\', 'b']
  | '\x0c' => ['\\', 'f']
  | '\n' => ['\\', 'n']
  | '\r' => ['\\', 'r']
  | '\t' => ['\\', 't']
  | c =>
    if c.toNat < 0x20 then
      ['\\', 'u', '0', '0', Nat.digitChar (c.toNat / 16), Nat.digitChar (c.toNat % 16)]
    else [c]

def write : Token → List Char
  | .openArray => ['[']
  | .closeArray => [']']
  | .openObject => ['\x7b']
  | .closeObject => ['\x7d']
  | .comma => [',']
  | .colon => [':']
  | .null => ['n', 'u', 'l', 'l']
  | .bool true => ['t', 'r', 'u', 'e']
  | .bool false => ['f', 'a', 'l', 's', 'e']
  | .number text => text
  | .string text => '"' :: text.flatMap escape ++ ['"']
  | .brokenString => ['"', '\\', 'u', 'd', '8', '0', '0', '"']
  | .bad => []

end Token

end CodeAtlas.Json
