import CodeAtlas.Decimal.Shortest
import CodeAtlas.Scalar
import CodeAtlas.Symbol.Basic

/-! Parameters of the ranking, and why a ranking fails. -/

namespace CodeAtlas

inductive WeightMap where
  | similarity | initial | dangling
  deriving Repr, DecidableEq

def WeightMap.label : WeightMap → String
  | .similarity => "similarity"
  | .initial => "initial"
  | .dangling => "dangling"

inductive RankError (α : Type) where
  | alphaOutOfRange (alpha : α)
  | toleranceOutOfRange (tolerance : α)
  | notConverged (iterations : Nat)
  | invalidWeight (map : WeightMap) (uri : String) (value : α)
  deriving Repr, DecidableEq

def RankError.message : RankError Float → String
  | .alphaOutOfRange alpha =>
    "Invalid SymbolRank configuration: alpha must be in (0, 1), got "
      ++ Decimal.Layout.plain.write (.ofFloat alpha)
  | .toleranceOutOfRange tolerance =>
    "Invalid SymbolRank configuration: tolerance must be in (1e-8, 1e-4), got "
      ++ Decimal.Layout.scientific.write (.ofFloat tolerance)
  | .notConverged iterations =>
    "SymbolRank did not converge within " ++ toString iterations ++ " iterations"
  | .invalidWeight map uri value =>
    "Invalid personalization weights: " ++ map.label ++ " weight for " ++ uri ++ " is "
      ++ Decimal.Layout.plain.write (.ofFloat value)

structure RankConfig (α : Type) where
  alpha : α
  maxIterations : Nat
  tolerance : α
  weightKey : String
  deriving Repr

namespace RankConfig

variable {α : Type} [Scalar α]

def standard : RankConfig α := ⟨1 / Scalar.ofNat 4, 100, 1 / Scalar.ofNat 1000000, "weight"⟩

def alphaInRange (alpha : α) : Bool := Scalar.lt 0 alpha && Scalar.lt alpha 1

def toleranceInRange (tolerance : α) : Bool :=
  Scalar.lt (1 / Scalar.ofNat 100000000) tolerance && Scalar.lt tolerance (1 / Scalar.ofNat 10000)

/-- A configuration with `alpha` strictly between 0 and 1 and `tolerance` strictly between 1e-8 and
1e-4. -/
def make (alpha : α) (maxIterations : Nat) (tolerance : α) (weightKey : String) :
    Except (RankError α) (RankConfig α) :=
  if !alphaInRange alpha then .error (.alphaOutOfRange alpha)
  else if !toleranceInRange tolerance then .error (.toleranceOutOfRange tolerance)
  else .ok ⟨alpha, maxIterations, tolerance, weightKey⟩

structure Valid (c : RankConfig α) : Prop where
  alpha : alphaInRange c.alpha
  tolerance : toleranceInRange c.tolerance

theorem make_eq_ok_iff {alpha tolerance : α} {maxIterations : Nat} {weightKey : String}
    {c : RankConfig α} :
    make alpha maxIterations tolerance weightKey = .ok c ↔
      c = ⟨alpha, maxIterations, tolerance, weightKey⟩ ∧ c.Valid := by
  unfold make
  constructor
  · intro h
    split at h
    · cases h
    · rename_i halpha
      split at h
      · cases h
      · rename_i htolerance
        cases h
        exact ⟨rfl, by simpa using halpha, by simpa using htolerance⟩
  · rintro ⟨rfl, halpha, htolerance⟩
    simp [halpha, htolerance]

end RankConfig

end CodeAtlas
