import CodeAtlas.Scalar
import CodeAtlas.Symbol.Basic

/-! Weighted graphs of symbols, as ranking takes them. -/

namespace CodeAtlas

inductive EdgeWeight (α : Type) where
  | attributes (values : List (String × α))
  | number (value : α)
  | unit
  deriving Repr

/-- The weight under a name. Of an attribute given twice the last value counts, and a missing one
weighs one. -/
def EdgeWeight.value {α : Type} [Scalar α] (key : String) : EdgeWeight α → α
  | .attributes values => (values.reverse.lookup key).getD 1
  | .number value => value
  | .unit => 1

structure RankEdge (α : Type) (n : Nat) where
  source : Fin n
  target : Fin n
  weight : EdgeWeight α
  deriving Repr

/-- Nodes labelled with symbols, of which several may be the same, and edges in order. -/
structure RankGraph (α : Type) where
  nodes : Array Symbol
  edges : List (RankEdge α nodes.size)
  directed : Bool := true

end CodeAtlas
