import CodeAtlas.Text.Characters
import CodeAtlas.Text.Lines

/-! Blocks of lines held together by indentation. -/

namespace CodeAtlas.Source

/-- Width of the indentation, a tab counting as one. -/
def indentWidth (line : List Char) : Nat := (line.takeWhile fun c => c = ' ' || c = '\t').length

/-- The last line of a block, among the numbered lines after its opening one: blank lines are passed
over, and a line indented no deeper than `base` ends it. -/
def blockEnd (base last : Nat) : List (List Char × Nat) → Nat
  | [] => last
  | (line, number) :: rest =>
    if Text.allBlank line then blockEnd base last rest
    else if indentWidth line ≤ base then last
    else blockEnd base number rest

def narrow (n : Nat) : Nat := (UInt32.ofNat n).toNat

def indentationBlock (lines : List (List Char)) (start : Nat) : Option (Nat × Nat) :=
  lines[start]?.map fun opening =>
    let base := indentWidth opening
    (narrow base, narrow (blockEnd base start (lines.zipIdx.drop (start + 1))))

end CodeAtlas.Source
