import CodeAtlas.Text.Characters

/-! Strings of configuration text: basic ones with escapes, literal ones without, both also over
several lines. -/

namespace CodeAtlas.Toml

/-- Characters that may stand for themselves: everything but controls, and the tab. -/
def isPlain (c : Char) : Bool := c = '\t' || (0x20 ≤ c.toNat && c.toNat ≠ 0x7F)

def isBlank (c : Char) : Bool := c = ' ' || c = '\t'

def escaped? : Char → Option Char
  | 'b' => some '\x08'
  | 't' => some '\t'
  | 'n' => some '\n'
  | 'f' => some '\x0c'
  | 'r' => some '\r'
  | '"' => some '"'
  | '\\' => some '\\'
  | _ => none

structure StringForm where
  quote : Char
  escapes : Bool
  multiline : Bool

inductive StringPhase where
  | plain
  | escape
  | code (missing value : Nat)
  /-- After quotes that may close a string of several lines. -/
  | quotes (count : Nat)
  /-- A line feed has to follow; then comes the given phase. -/
  | carriage (folding : Bool)
  /-- Passing over the blanks and line ends that a backslash joins. -/
  | fold (broken : Bool)

def StringForm.plainStep (f : StringForm) (text : List Char) (c : Char) :
    Option (StringPhase × List Char) :=
  if f.multiline && c = f.quote then some (.quotes 1, text)
  else if f.multiline && c = '\n' then some (.plain, c :: text)
  else if f.multiline && c = '\r' then some (.carriage false, text)
  else if f.escapes && c = '\\' then some (.escape, text)
  else if isPlain c then some (.plain, c :: text)
  else none

def StringForm.escapeStep (f : StringForm) (text : List Char) (c : Char) :
    Option (StringPhase × List Char) :=
  if c = 'u' then some (.code 4 0, text)
  else if c = 'U' then some (.code 8 0, text)
  else match escaped? c with
    | some d => some (.plain, d :: text)
    | none =>
      if !f.multiline then none
      else if isBlank c then some (.fold false, text)
      else if c = '\n' then some (.fold true, text)
      else if c = '\r' then some (.carriage true, text)
      else none

def codeStep (missing value : Nat) (text : List Char) (c : Char) :
    Option (StringPhase × List Char) :=
  match Text.hexValue? c with
  | none => none
  | some digit =>
    let value := value * 16 + digit
    if 1 < missing then some (.code (missing - 1) value, text)
    else if value.isValidChar then some (.plain, Char.ofNat value :: text)
    else none

def StringForm.foldStep (f : StringForm) (broken : Bool) (text : List Char) (c : Char) :
    Option (StringPhase × List Char) :=
  if isBlank c then some (.fold broken, text)
  else if c = '\n' then some (.fold true, text)
  else if c = '\r' then some (.carriage true, text)
  else if broken then f.plainStep text c
  else none

def StringForm.step (f : StringForm) (phase : StringPhase) (text : List Char) (c : Char) :
    Option (StringPhase × List Char) :=
  match phase with
  | .plain => f.plainStep text c
  | .escape => f.escapeStep text c
  | .code missing value => codeStep missing value text c
  | .quotes count =>
    if c = f.quote then some (.quotes (count + 1), text)
    else f.plainStep (List.replicate count f.quote ++ text) c
  | .carriage folding =>
    if c ≠ '\n' then none
    else if folding then some (.fold true, text)
    else some (.plain, c :: text)
  | .fold broken => f.foldStep broken text c

/-- Whether the string is over before `c`, or at the end of the text: three quotes close it, and up
to two before them are part of it. -/
def StringForm.closed (f : StringForm) (phase : StringPhase) (c : Option Char) : Bool :=
  match phase with
  | .quotes count => count = 5 || (3 ≤ count && c ≠ some f.quote)
  | _ => false

def StringForm.closing (f : StringForm) (phase : StringPhase) (text : List Char) : List Char :=
  match phase with
  | .quotes count => (List.replicate (count - 3) f.quote ++ text).reverse
  | _ => text.reverse

def StringForm.read (f : StringForm) (phase : StringPhase) (text : List Char) :
    List Char → Option (List Char × List Char)
  | [] => if f.closed phase none then some (f.closing phase text, []) else none
  | c :: rest =>
    if f.closed phase (some c) then some (f.closing phase text, c :: rest)
    else match phase with
      | .plain =>
        if !f.multiline && c = f.quote then some (text.reverse, rest)
        else (f.step .plain text c).bind fun (phase, text) => f.read phase text rest
      | phase => (f.step phase text c).bind fun (phase, text) => f.read phase text rest

/-- A string of several lines does not hold a line end right behind its opening quotes. -/
def dropLineEnd : List Char → List Char
  | '\n' :: rest => rest
  | '\r' :: '\n' :: rest => rest
  | text => text

def string? : List Char → Option (List Char × List Char)
  | '"' :: '"' :: '"' :: rest => StringForm.read ⟨'"', true, true⟩ .plain [] (dropLineEnd rest)
  | '"' :: rest => StringForm.read ⟨'"', true, false⟩ .plain [] rest
  | '\'' :: '\'' :: '\'' :: rest =>
    StringForm.read ⟨'\'', false, true⟩ .plain [] (dropLineEnd rest)
  | '\'' :: rest => StringForm.read ⟨'\'', false, false⟩ .plain [] rest
  | _ => none

def lineString? : List Char → Option (List Char × List Char)
  | '"' :: rest => StringForm.read ⟨'"', true, false⟩ .plain [] rest
  | '\'' :: rest => StringForm.read ⟨'\'', false, false⟩ .plain [] rest
  | _ => none

end CodeAtlas.Toml
