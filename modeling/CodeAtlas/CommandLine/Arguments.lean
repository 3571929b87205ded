/-! Arguments of the command line: options with one or two dashes, a command, and its operands. -/

namespace CodeAtlas.CommandLine

inductive Command where
  | init (force : Bool)
  | config
  | stats
  | references (uri : String)
  | calls (uri : String)
  | source (uri : String)
  | exact (pattern : String)
  | rank (top : Nat) (filter : Option String)
  | embed
  | search (query : String) (top : Nat)
  | query (text : String)
  deriving Repr, DecidableEq

structure Invocation where
  index : Option String
  command : Command
  deriving Repr, DecidableEq

inductive Stop where
  | version
  | help
  | usage (reason : String)
  deriving Repr, DecidableEq

inductive OptionName where
  | index | version | help | force | top | filter
  deriving Repr, DecidableEq

structure OptionForm where
  name : OptionName
  long : String
  short : Option Char
  takesValue : Bool

def indexForm : OptionForm := ⟨.index, "index", some 'i', true⟩
def versionForm : OptionForm := ⟨.version, "version", some 'V', false⟩
def helpForm : OptionForm := ⟨.help, "help", some 'h', false⟩
def forceForm : OptionForm := ⟨.force, "force", some 'f', false⟩
def topForm : OptionForm := ⟨.top, "top", some 't', true⟩
def filterForm : OptionForm := ⟨.filter, "filter", none, true⟩

structure Reader where
  options : List (OptionName × String) := []
  operands : List String := []
  pending : Option OptionName := none
  /-- After `--` there are no options. -/
  operandsOnly : Bool := false
  limit : Nat := 0

namespace Reader

def value? (r : Reader) (name : OptionName) : Option String := r.options.lookup name

def has (r : Reader) (name : OptionName) : Bool := (r.value? name).isSome

def count? (text : String) : Option Nat :=
  let digits := match text.toList with
    | '+' :: rest => rest
    | rest => rest
  if digits.isEmpty || !digits.all Char.isDigit then none
  else
    let n := digits.foldl (fun n c => n * 10 + (c.toNat - '0'.toNat)) 0
    if n < UInt64.size then some n else none

def record (r : Reader) (name : OptionName) (value : String) : Except Stop Reader :=
  if r.has name then .error (.usage "option given twice")
  else if name = .index && value.isEmpty then .error (.usage "option without value")
  else if name = .top && (count? value).isNone then .error (.usage "invalid count")
  else .ok { r with options := (name, value) :: r.options, pending := none }

def flag (r : Reader) (name : OptionName) : Except Stop Reader :=
  match name with
  | .version => .error .version
  | .help => .error .help
  | name => r.record name ""

def long (r : Reader) (forms : List OptionForm) (text : List Char) : Except Stop Reader :=
  let (name, tail) := text.span (· ≠ '=')
  match forms.find? (·.long.toList = name), tail with
  | none, _ => .error (.usage "unknown option")
  | some form, [] =>
    if form.takesValue then .ok { r with pending := some form.name } else r.flag form.name
  | some form, _ :: value =>
    if form.takesValue then r.record form.name (String.ofList value)
    else .error (.usage "option takes no value")

def short (r : Reader) (forms : List OptionForm) : List Char → Except Stop Reader
  | [] => .ok r
  | c :: rest =>
    match forms.find? (·.short = some c) with
    | none => .error (.usage "unknown option")
    | some form =>
      if form.takesValue then
        match rest with
        | [] => .ok { r with pending := some form.name }
        | '=' :: value => r.record form.name (String.ofList value)
        | value => r.record form.name (String.ofList value)
      else do (← r.flag form.name).short forms rest

/-- Reads arguments up to the first operand, or all of them: what is left behind an operand that
stops the reading, if one does. -/
def read (r : Reader) (forms : List OptionForm) (stopAtOperand : Bool) :
    List String → Except Stop (Reader × Option (String × List String))
  | [] =>
    if r.pending.isSome then .error (.usage "option without value") else .ok (r, none)
  | arg :: rest =>
    let operand : Except Stop (Reader × Option (String × List String)) :=
      if stopAtOperand && !r.operandsOnly then .ok (r, some (arg, rest))
      else if r.limit ≤ r.operands.length then .error (.usage "unexpected operand")
      else read { r with operands := arg :: r.operands } forms stopAtOperand rest
    if r.operandsOnly then operand
    else match r.pending, arg.toList with
      | some name, text =>
        if text.head? = some '-' && text.length ≠ 1 then .error (.usage "option without value")
        else do read (← r.record name arg) forms stopAtOperand rest
      | none, ['-', '-'] => read { r with operandsOnly := true } forms stopAtOperand rest
      | none, '-' :: '-' :: text => do read (← r.long forms text) forms stopAtOperand rest
      | none, '-' :: c :: text => do read (← r.short forms (c :: text)) forms stopAtOperand rest
      | none, _ => operand

def operand (r : Reader) : Except Stop String :=
  match r.operands with
  | x :: _ => .ok x
  | [] => .error (.usage "missing operand")

def top (r : Reader) : Nat := ((r.value? .top).bind count?).getD 20

end Reader

structure CommandForm where
  word : String
  options : List OptionForm
  operands : Nat
  make : Reader → Except Stop Command

def commandForms : List CommandForm := [
  ⟨"init", [forceForm], 0, fun r => .ok (.init (r.has .force))⟩,
  ⟨"config", [], 0, fun _ => .ok .config⟩,
  ⟨"stats", [], 0, fun _ => .ok .stats⟩,
  ⟨"references", [], 1, fun r => .references <$> r.operand⟩,
  ⟨"calls", [], 1, fun r => .calls <$> r.operand⟩,
  ⟨"source", [], 1, fun r => .source <$> r.operand⟩,
  ⟨"exact", [], 1, fun r => .exact <$> r.operand⟩,
  ⟨"rank", [topForm, filterForm], 0, fun r => .ok (.rank r.top (r.value? .filter))⟩,
  ⟨"embed", [], 0, fun _ => .ok .embed⟩,
  ⟨"search", [topForm], 1, fun r => return .search (← r.operand) r.top⟩,
  ⟨"query", [], 1, fun r => .query <$> r.operand⟩]

def helpFor : List String → Stop
  | [] => .help
  | [word] =>
    if word = "help" || commandForms.any (·.word = word) then .help else .usage "unknown command"
  | _ => .usage "unexpected operand"

def Invocation.parse (args : List String) : Except Stop Invocation := do
  let (general, found) ← Reader.read {} [indexForm, versionForm, helpForm] true args
  match found with
  | none => throw (.usage "missing command")
  | some (word, rest) =>
    match commandForms.find? (·.word = word) with
    | none => throw (if word = "help" then helpFor rest else .usage "unknown command")
    | some form =>
      let (r, _) ← Reader.read { limit := form.operands }
          (indexForm :: helpForm :: form.options) false rest
      return ⟨(r.value? .index).or (general.value? .index), ← form.make r⟩

end CodeAtlas.CommandLine
