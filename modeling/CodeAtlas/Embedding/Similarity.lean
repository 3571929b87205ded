import CodeAtlas.Embedding.Basic
import CodeAtlas.Ordered
import CodeAtlas.Scalar

/-! Scores of embeddings against the vector of a query. -/

namespace CodeAtlas

variable {α κ : Type} [Scalar α]

inductive Norm where
  /-- Dot products of vectors scaled by the sum of their absolute components. -/
  | l1
  /-- Dot products of vectors scaled to length one. -/
  | l2
  /-- Dot products as shares of an exponential sum. -/
  | softmax
  deriving Repr, DecidableEq

namespace Similarity

def dot (u v : List α) : α := Scalar.sum ((u.zip v).map fun (a, b) => a * b)

def absoluteSum (v : List α) : α := Scalar.sum (v.map Scalar.abs)

def euclidean (v : List α) : α := Scalar.sqrt (Scalar.sum (v.map fun a => a * a))

def normalize (magnitude : List α → α) (v : List α) : List α :=
  let size := magnitude v
  if Scalar.isZero size then v else v.map (· / size)

def raw : Norm → List α → List α → α
  | .l1, v, query => dot (normalize absoluteSum v) (normalize absoluteSum query)
  | .l2, v, query => dot (normalize euclidean v) (normalize euclidean query)
  | .softmax, v, query => dot v query

def softmax (values : List α) : List α :=
  let top := Scalar.maximum values
  let total := Scalar.sum (values.map fun x => Scalar.exp (x - top))
  values.map fun x => Scalar.exp (x - top) / total

/-- The raw score of every embedding in order; of one symbol the last counts. -/
def rawScores (norm : Norm) (widen : κ → α) (query : List κ) :
    List (Symbol × α) → List (Embedding κ) → Except EmbeddingError (List (Symbol × α))
  | scores, [] => .ok scores
  | scores, e :: rest =>
    if e.vector.length ≠ query.length then
      .error (.dimensionMismatch query.length e.vector.length)
    else
      let score := raw norm (e.vector.map widen) (query.map widen)
      rawScores norm widen query (Ordered.insert e.symbol score scores) rest

def scores (norm : Norm) (widen : κ → α) (query : List κ) (es : List (Embedding κ)) :
    Except EmbeddingError (List (Symbol × α)) := do
  let found ← rawScores norm widen query [] es
  if norm = .softmax then return (found.map (·.1)).zip (softmax (found.map (·.2)))
  else return found

/-- The `k` highest scores; equal ones stay in order. -/
def top (k : Nat) (scores : List (Symbol × α)) : List (Symbol × α) :=
  (scores.mergeSort fun a b => Scalar.totalLe b.2 a.2).take k

/-- The values in standard deviations above the lowest one, raised to a power; all zero if they do
not differ. -/
def shiftedZScore (values : List α) (power : α) : List α :=
  let count : α := Scalar.ofNat values.length
  let mean := Scalar.sum values / count
  let variance := Scalar.sum (values.map fun v => (v - mean) * (v - mean)) / count
  let deviation := Scalar.sqrt variance
  if Scalar.isZero deviation || !Scalar.isFinite deviation then values.map fun _ => 0
  else
    let standard := values.map fun v => (v - mean) / deviation
    let lowest := Scalar.minimum standard
    standard.map fun v => Scalar.pow (v - lowest) power

end Similarity

end CodeAtlas
