import CodeAtlas.Rank.Config
import CodeAtlas.Rank.Graph

/-! The random walk over a weighted graph: from each node to its successors, with probabilities in
proportion to the weights. -/

namespace CodeAtlas

/-- An order in which the weights of each row are added up, by the number of its node. All of them
count, but which comes first is not settled by the graph, and rounding may show it. -/
structure RowOrder (α : Type) where
  arrange : Nat → List α → List α
  perm (node : Nat) (weights : List α) : (arrange node weights).Perm weights

def RowOrder.ascending {α : Type} : RowOrder α := ⟨fun _ weights => weights, fun _ _ => .refl _⟩

structure Transition (α : Type) (n : Nat) where
  rows : Vector (List (Fin n × α)) n
  dangling : List (Fin n)

variable {α : Type} [Scalar α]

namespace Transition

variable {n : Nat}

/-- Contributions of an edge: an undirected one counts both ways, a loop once. -/
def contributions (directed : Bool) (key : String) (e : RankEdge α n) : List (Fin n × Fin n × α) :=
  let w := e.weight.value key
  if directed || e.source = e.target then [(e.source, e.target, w)]
  else [(e.source, e.target, w), (e.target, e.source, w)]

/-- The weights from a node to `target`, added up in the order of the edges; `none` if there are
none. -/
def weightTo (outgoing : List (Fin n × α)) (target : Fin n) : Option α :=
  match outgoing.filter (·.1 = target) with
  | [] => none
  | found => some (found.foldl (fun w e => w + e.2) 0)

def positive (outgoing : List (Fin n × α)) : List (Fin n × α) :=
  (List.finRange n).filterMap fun target =>
    (weightTo outgoing target).bind fun w => if Scalar.lt 0 w then some (target, w) else none

def rowTotal (order : RowOrder α) (node : Fin n) (outgoing : List (Fin n × α)) : α :=
  Scalar.sum (order.arrange node ((positive outgoing).map (·.2)))

def isDangling (order : RowOrder α) (node : Fin n) (outgoing : List (Fin n × α)) : Bool :=
  Scalar.le (rowTotal order node outgoing) 0

/-- The row of a node: its successors with weights scaled to sum to one, empty if none is
positive. -/
def row (order : RowOrder α) (node : Fin n) (outgoing : List (Fin n × α)) : List (Fin n × α) :=
  let total := rowTotal order node outgoing
  if Scalar.le total 0 then [] else (positive outgoing).map fun (target, w) => (target, w / total)

def ofEdges (order : RowOrder α) (directed : Bool) (key : String) (edges : List (RankEdge α n)) :
    Transition α n :=
  let steps := edges.flatMap (contributions directed key)
  let outgoing := fun node : Fin n => (steps.filter (·.1 = node)).map (·.2)
  { rows := Vector.ofFn fun node => row order node (outgoing node)
    dangling := (List.finRange n).filter fun node => isDangling order node (outgoing node) }

def incoming (t : Transition α n) (target : Fin n) : List (Fin n × α) :=
  (List.finRange n).filterMap fun node =>
    (((t.rows.get node).find? (·.1 = target)).map fun e => (node, e.2))

end Transition

end CodeAtlas
