/-
Rounded rationals as scalars: binary floating-point arithmetic without
limits on the exponent. An operation gives the number of 53 significant
bits that is nearest to the exact result, and of two that are equally near
the one whose last bit is zero. So it gives what double-precision numbers
give, as long as nothing overflows or underflows, and it can be computed
with in proofs.
-/
import LinearConstraints.Scalar.Basic

namespace LinearConstraints

/-- Rationals that are rounded after each operation. -/
def RoundedRat : Type := Rat

namespace RoundedRat

/-- A power of two. -/
def twoPow : Int → Rat
  | .ofNat n => ((Nat.pow 2 n : Nat) : Rat)
  | .negSucc n => 1 / ((Nat.pow 2 (n + 1) : Nat) : Rat)

/-- What the last of 53 significant bits of a number is worth. -/
def lastBit (q : Rat) : Rat :=
  let e : Int := Int.ofNat q.num.natAbs.log2 - Int.ofNat q.den.log2
  -- The leading bit is worth two to the power of `e`, or half of that.
  twoPow ((if q.abs < twoPow e then e - 1 else e) - 52)

/-- The nearest whole number, of two the even one. -/
def nearestEven (q : Rat) : Int :=
  let below := q.floor
  let rest := q - below
  if rest < 1 / 2 ∨ rest = 1 / 2 ∧ below % 2 = 0 then below else below + 1

/-- The nearest number of 53 significant bits, of two the even one. -/
def round (q : Rat) : Rat := nearestEven (q / lastBit q) * lastBit q

/-- The rational itself. -/
def toRat (v : RoundedRat) : Rat := v

/-- The number that stands for a rational. -/
def ofRat (q : Rat) : RoundedRat := round q

/-- A number this far from zero, or further, is not near zero. -/
def tolerance : RoundedRat := ofRat (1 / 100000000)

/-- The arithmetic of the rationals, rounded. Changing the sign and
comparing are exact. -/
instance instScalar : Scalar RoundedRat where
  zero := ofRat 0
  one := ofRat 1
  natCast := fun n => ofRat (n : Rat)
  neg := fun a => Rat.neg a
  add := fun a b => ofRat (a.toRat + b.toRat)
  sub := fun a b => ofRat (a.toRat - b.toRat)
  mul := fun a b => ofRat (a.toRat * b.toRat)
  div := fun a b => ofRat (a.toRat / b.toRat)
  beq := fun a b => decide (a.toRat = b.toRat)
  lt := fun a b => a.toRat < b.toRat
  le := fun a b => a.toRat ≤ b.toRat
  decLt := fun a b => inferInstanceAs (Decidable (a.toRat < b.toRat))
  decLe := fun a b => inferInstanceAs (Decidable (a.toRat ≤ b.toRat))
  nearZero := fun v => decide (v.toRat.abs < tolerance.toRat)
  isRatio := fun _ => true

end RoundedRat

end LinearConstraints
