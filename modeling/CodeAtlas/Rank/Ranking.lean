import CodeAtlas.Rank.Transition

/-! Personalised ranking of the nodes of a graph: the score of a node is what its predecessors pass
on, what dangling nodes spread, and its own share of the similarity weights. Scores are iterated
until they hardly change. -/

namespace CodeAtlas

variable {α : Type} [Scalar α]

abbrev Weights (α : Type) := List (Symbol × α)

def Weights.value (w : Weights α) (s : Symbol) : α := ((w.find? (·.1 == s)).map (·.2)).getD 0

/-- The weight maps of a ranking. No map means equal weights, but for `dangling`, which follows the
similarity. -/
structure RankWeights (α : Type) where
  similarity : Option (Weights α) := none
  initial : Option (Weights α) := none
  dangling : Option (Weights α) := none

structure SymbolRank (α : Type) where
  nodes : Array Symbol
  config : RankConfig α
  transition : Transition α nodes.size

namespace SymbolRank

def ofGraph (g : RankGraph α) (config : RankConfig α) (order : RowOrder α := .ascending) :
    SymbolRank α where
  nodes := g.nodes
  config := config
  transition := Transition.ofEdges order g.directed config.weightKey g.edges

def uniform (n : Nat) : Vector α n := Vector.replicate n (1 / Scalar.ofNat n)

def accepted (value : α) : Bool := Scalar.isFinite value && !Scalar.lt value 0

/-- Weights of the nodes, scaled to sum to one; equal ones if there is no map or it has nothing for
the nodes. -/
def normalized (r : SymbolRank α) (map : WeightMap) (weights : Option (Weights α)) :
    Except (RankError α) (Vector α r.nodes.size) :=
  match weights with
  | none => .ok (uniform r.nodes.size)
  | some weights =>
    match r.nodes.toList.find? fun s => !accepted (weights.value s) with
    | some s => .error (.invalidWeight map s.uri (weights.value s))
    | none =>
      let dense := Vector.ofFn fun i : Fin r.nodes.size => weights.value r.nodes[i]
      let total := Scalar.sum dense.toList
      .ok (if Scalar.le total 0 then uniform r.nodes.size else dense.map (· / total))

structure Personalization (α : Type) (n : Nat) where
  similarity : Vector α n
  dangling : Vector α n
  deriving DecidableEq

structure Start (α : Type) (n : Nat) extends Personalization α n where
  initial : Vector α n
  deriving DecidableEq

def start (r : SymbolRank α) (weights : RankWeights α) :
    Except (RankError α) (Start α r.nodes.size) := do
  let similarity ← r.normalized .similarity weights.similarity
  let initial ← r.normalized .initial weights.initial
  let dangling ← weights.dangling.elim (.ok similarity) fun map => r.normalized .dangling (some map)
  return { similarity, dangling, initial }

def advance {n : Nat} (alpha : α) (t : Transition α n) (incoming : Vector (List (Fin n × α)) n)
    (p : Personalization α n) (last : Vector α n) : Vector α n :=
  let spread := alpha * Scalar.sum (t.dangling.map fun d => last.get d)
  Vector.ofFn fun node : Fin n =>
    let passed := (incoming.get node).foldl (fun acc e => acc + alpha * last.get e.1 * e.2) 0
    passed + (spread * p.dangling.get node + (1 - alpha) * p.similarity.get node)

def distance {n : Nat} (a b : Vector α n) : α :=
  Scalar.sum ((a.toList.zip b.toList).map fun (x, y) => Scalar.abs (x - y))

/-- Iterates until a step changes less than `threshold`; `none` if no step allowed does. -/
def iterate {n : Nat} (step : Vector α n → Vector α n) (threshold : α) :
    Nat → Vector α n → Option (Vector α n)
  | 0, _ => none
  | fuel + 1, last =>
    let next := step last
    if Scalar.lt (distance next last) threshold then some next else iterate step threshold fuel next

/-- Highest score first, equal scores by ascending uri. -/
def rankingLe (a b : Symbol × α) : Bool :=
  if Scalar.totalLe a.2 b.2 then Scalar.totalLe b.2 a.2 && a.1.before b.1 else true

def sorted (r : SymbolRank α) (scores : Vector α r.nodes.size) : List (Symbol × α) :=
  (r.nodes.toList.zip scores.toList).mergeSort rankingLe

def rankWith (r : SymbolRank α) (weights : RankWeights α) :
    Except (RankError α) (List (Symbol × α)) :=
  let n := r.nodes.size
  if n = 0 then .ok []
  else do
    let start ← r.start weights
    let incoming := Vector.ofFn r.transition.incoming
    let step := advance r.config.alpha r.transition incoming start.toPersonalization
    match iterate step (Scalar.ofNat n * r.config.tolerance) r.config.maxIterations
      start.initial with
    | some scores => return r.sorted scores
    | none => .error (.notConverged r.config.maxIterations)

def rank (r : SymbolRank α) (similarity : Option (Weights α)) :
    Except (RankError α) (List (Symbol × α)) :=
  r.rankWith { similarity }

end SymbolRank

end CodeAtlas
