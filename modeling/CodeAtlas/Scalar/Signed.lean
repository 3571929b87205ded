import CodeAtlas.Scalar

/-! Floats that know the sign of what is no number, for rankings that sort it: the negative one
comes first and the positive one last. -/

namespace CodeAtlas

structure SignedFloat where
  value : Float
  /-- Of what is no number only. -/
  negative : Bool := false
  deriving Repr

namespace SignedFloat

def isNaN (x : SignedFloat) : Bool := x.value.isNaN

/-- The outcome of numbers: where there is none, the negative one stands for it. -/
def ofNumbers (x : Float) : SignedFloat := ⟨x, x.isNaN⟩

/-- The first operand that is no number is the outcome. -/
def combine (f : Float → Float → Float) (x y : SignedFloat) : SignedFloat :=
  if x.isNaN then x else if y.isNaN then y else ofNumbers (f x.value y.value)

def map (f : Float → Float) (x : SignedFloat) : SignedFloat :=
  if x.isNaN then x else ofNumbers (f x.value)

def pow (x y : SignedFloat) : SignedFloat :=
  let outcome := Float.pow x.value y.value
  if outcome.isNaN then combine Float.pow x y else ⟨outcome, false⟩

def position (x : SignedFloat) : Int :=
  let size := Scalar.rankOfFloat x.value
  if x.isNaN && x.negative then -1 - size else size

instance : Zero SignedFloat := ⟨⟨0, false⟩⟩
instance : One SignedFloat := ⟨⟨1, false⟩⟩
instance : Add SignedFloat := ⟨combine (· + ·)⟩
instance : Sub SignedFloat := ⟨combine (· - ·)⟩
instance : Mul SignedFloat := ⟨combine (· * ·)⟩
instance : Div SignedFloat := ⟨combine (· / ·)⟩

instance : Scalar SignedFloat where
  neutral := ⟨-0.0, false⟩
  ofNat n := ⟨Float.ofNat n, false⟩
  lt x y := x.value < y.value
  le x y := x.value ≤ y.value
  totalLe x y := x.position ≤ y.position
  isFinite x := x.value.isFinite
  max x y := if x.isNaN then y else if y.isNaN then x else if x.value < y.value then y else x
  min x y := if x.isNaN then y else if y.isNaN then x else if y.value < x.value then y else x
  abs x := ⟨x.value.abs, false⟩
  sqrt := map Float.sqrt
  exp := map Float.exp
  pow := pow

end SignedFloat

end CodeAtlas
