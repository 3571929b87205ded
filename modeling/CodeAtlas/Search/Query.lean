import CodeAtlas.Text.Characters
import CodeAtlas.Text.Printable

/-! Queries as commands: `type:`, a kind, one space, and the text of the query as it stands. -/

namespace CodeAtlas

inductive QueryKind where
  | references | rank | exact | source
  deriving Repr, DecidableEq

namespace QueryKind

def word : QueryKind → String
  | .references => "symbol_references"
  | .rank => "symbol_rank"
  | .exact => "exact"
  | .source => "source"

def all : List QueryKind := [.references, .rank, .exact, .source]

def ofWord? (w : String) : Option QueryKind := all.find? (·.word = w)

end QueryKind

structure SearchQuery where
  kind : QueryKind
  text : String
  deriving Repr, DecidableEq

inductive QueryFault where
  | noMark (command : String)
  | noText (command : String)
  | blankText (command : String)
  | unknownKind (word : String)
  | noPattern
  deriving Repr, DecidableEq

def QueryFault.reason : QueryFault → String
  | .noMark command => "missing 'type:' prefix in " ++ Text.quoted command
  | .noText command => "missing query text in " ++ Text.quoted command
  | .blankText command => "empty query text in " ++ Text.quoted command
  | .unknownKind word => "unknown query type '" ++ word ++ "'"
  | .noPattern => "empty exact-search pattern"

namespace SearchQuery

def mark : String := "type:"

def after? : List Char → List Char → Option (List Char)
  | [], text => some text
  | _ :: _, [] => none
  | p :: ps, c :: cs => if p = c then after? ps cs else none

def splitSpace? : List Char → Option (List Char × List Char)
  | [] => none
  | c :: rest =>
    if c = ' ' then some ([], rest)
    else (splitSpace? rest).map fun (word, text) => (c :: word, text)

def parse (command : String) : Except QueryFault SearchQuery :=
  match after? mark.toList command.toList with
  | none => .error (.noMark command)
  | some body =>
    match splitSpace? body with
    | none => .error (.noText command)
    | some (word, text) =>
      if Text.allBlank text then .error (.blankText command)
      else match QueryKind.ofWord? (String.ofList word) with
        | none => .error (.unknownKind (String.ofList word))
        | some kind => .ok ⟨kind, String.ofList text⟩

def write (q : SearchQuery) : String := mark ++ q.kind.word ++ " " ++ q.text

end SearchQuery

end CodeAtlas
