/-
Rational numbers as scalars, in two readings. `Rat` itself is exact: only
zero is near zero. `TolerantRat` has the same exact arithmetic but treats
every value strictly within 10^-8 of zero as near zero, which isolates
the effect of the tolerance from that of rounding.
-/
import LinearConstraints.Scalar.Basic

namespace LinearConstraints

/-- Exact arithmetic: a value counts as zero only if it is. -/
instance instScalarRat : Scalar Rat where
  zero := 0
  one := 1
  natCast := Rat.instNatCast.natCast
  neg := Rat.neg
  add := Rat.add
  sub := Rat.sub
  mul := Rat.mul
  div := Rat.div
  beq := fun a b => decide (a = b)
  lt := Rat.instLT.lt
  le := Rat.instLE.le
  decLt := Rat.instDecidableLt
  decLe := Rat.instDecidableLe
  nearZero := fun v => decide (v = 0)
  isRatio := fun _ => true

/-- Rationals whose arithmetic is exact but whose test for zero allows an
error of less than 10^-8. -/
def TolerantRat : Type := Rat

namespace TolerantRat

/-- The bound that values near zero stay below. -/
def tolerance : Rat := 1 / 100000000

/-- The rational itself. -/
def toRat (v : TolerantRat) : Rat := v

/-- The arithmetic of the rationals with a tolerant test for zero. -/
instance instScalar : Scalar TolerantRat where
  zero := instScalarRat.zero
  one := instScalarRat.one
  natCast := instScalarRat.natCast
  neg := instScalarRat.neg
  add := instScalarRat.add
  sub := instScalarRat.sub
  mul := instScalarRat.mul
  div := instScalarRat.div
  beq := instScalarRat.beq
  lt := instScalarRat.lt
  le := instScalarRat.le
  decLt := instScalarRat.decLt
  decLe := instScalarRat.decLe
  nearZero := fun v => decide (v.toRat.abs < tolerance)
  isRatio := fun _ => true

end TolerantRat

end LinearConstraints
