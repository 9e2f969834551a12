/-
Double-precision numbers as scalars: the arithmetic that the solver runs
on. Every operation rounds once, NaN compares with nothing and differs
from itself, and the two zeros are equal.
-/
import LinearConstraints.Scalar.Basic

namespace LinearConstraints

/-- A double this far from zero, or further, is not near zero. -/
def Scalar.doubleTolerance : Float := 1e-8

/-- The largest finite double, (2 - 2^-52) * 2^1023. -/
def Scalar.largestDouble : Float := Float.ofBits 0x7FEFFFFFFFFFFFFF

/-- Near zero is strictly within the tolerance, so NaN is not; ratios are
the numbers below the largest double, so infinity and NaN are none. -/
instance instScalarFloat : Scalar Float where
  zero := 0
  one := 1
  natCast := Float.ofNat
  neg := Float.neg
  add := Float.add
  sub := Float.sub
  mul := Float.mul
  div := Float.div
  beq := Float.beq
  lt := fun a b => a < b
  le := fun a b => a ≤ b
  decLt := Float.decLt
  decLe := Float.decLe
  nearZero := fun v => decide (v.abs < Scalar.doubleTolerance)
  isRatio := fun r => decide (r < Scalar.largestDouble)

end LinearConstraints
