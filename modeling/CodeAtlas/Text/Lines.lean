/-! Lines of a text: pieces ended by a line feed, less one carriage return before it. -/

namespace CodeAtlas.Text

def pieces : List Char → List (List Char)
  | [] => [[]]
  | c :: rest =>
    if c = '\n' then [] :: pieces rest
    else match pieces rest with
      | [] => [[c]]
      | piece :: more => (c :: piece) :: more

def dropReturn (line : List Char) : List Char :=
  if line.getLast? = some '\r' then line.dropLast else line

/-- The lines of a text. A carriage return goes only where a line feed follows it, and text after
the last line feed is a line of its own if there is any. -/
def lines (s : List Char) : List (List Char) :=
  let all := pieces s
  let ended := all.dropLast.map dropReturn
  match all.getLast? with
  | some [] | none => ended
  | some last => ended ++ [last]

def contains (pattern : List Char) : List Char → Bool
  | [] => pattern.isEmpty
  | c :: rest => pattern.isPrefixOf (c :: rest) || contains pattern rest

end CodeAtlas.Text
