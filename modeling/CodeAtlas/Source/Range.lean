/-! Zero-based positions in source text: ranges, the roles of an occurrence, and
definition spans. -/

namespace CodeAtlas

structure SourceRange where
  startLine : Nat
  startColumn : Nat
  endLine : Nat
  endColumn : Nat
  deriving Repr, DecidableEq

namespace SourceRange

def Ordered (r : SourceRange) : Prop :=
  r.startLine < r.endLine ∨ (r.startLine = r.endLine ∧ r.startColumn ≤ r.endColumn)

instance (r : SourceRange) : Decidable r.Ordered := by unfold Ordered; infer_instance

/-- Three numbers are a range on one line, four one over several. No number may be negative and the
end may not come before the start. -/
def ofRaw? (raw : List Int32) : Option SourceRange :=
  let numbers := raw.map Int32.toInt
  if numbers.any (· < 0) then none
  else
    let range? : Option SourceRange := match numbers.map Int.toNat with
      | [line, start, stop] => some ⟨line, start, line, stop⟩
      | [startLine, start, endLine, stop] => some ⟨startLine, start, endLine, stop⟩
      | _ => none
    range?.filter fun r => decide r.Ordered

def contains (r : SourceRange) (line column : Nat) : Bool :=
  r.startLine ≤ line && line ≤ r.endLine
    && !(line = r.startLine && column < r.startColumn)
    && !(line = r.endLine && r.endColumn < column)

end SourceRange

structure Roles where
  bits : Nat
  deriving Repr, DecidableEq

namespace Roles

def names : List String :=
  ["DEFINITION", "IMPORT", "WRITE_ACCESS", "READ_ACCESS", "GENERATED", "TEST", "FORWARD_DEFINITION"]

/-- Bits without a flag are dropped. -/
def ofRaw (raw : Int32) : Roles := ⟨raw.toUInt32.toNat % 1 <<< names.length⟩

def flagNames (r : Roles) : List String :=
  names.zipIdx.filterMap fun (name, i) => if r.bits.testBit i then some name else none

def isDefinition (r : Roles) : Bool := r.bits.testBit 0

end Roles

/-- Where a definition stands in one file; the last line is taken whole. -/
structure SourceSpan where
  path : String
  startLine : Nat
  startColumn : Nat
  endLine : Nat
  deriving Repr, DecidableEq

def SourceSpan.height? (s : SourceSpan) : Option Nat :=
  if s.startLine ≤ s.endLine then some (s.endLine - s.startLine) else none

/-- Positions left of the start column on the first line are outside. -/
def SourceSpan.encloses (s : SourceSpan) (line column : Nat) : Bool :=
  s.startLine ≤ line && line ≤ s.endLine && !(line = s.startLine && column < s.startColumn)

end CodeAtlas
