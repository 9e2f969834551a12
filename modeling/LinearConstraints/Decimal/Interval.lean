/-
Binary numbers and the real numbers that round to them.

A machine number stands for every real that rounds to it: those up to
half-way to its neighbours, the half-way points included exactly if the
number's significand is even. A decimal reads back as the number if and
only if it lies in that interval. All bounds are kept as whole multiples
of one power of two, so that a decimal is compared with them exactly.
-/

namespace LinearConstraints

/-- A decimal number, `digits * 10 ^ exponent`. -/
structure Decimal where
  digits : Nat
  exponent : Int
  deriving DecidableEq, Repr

namespace Decimal

/-- A positive number together with the interval of reals that round to
it, all in units of `2 ^ exponent`. -/
structure Interval where
  value : Nat
  low : Nat
  high : Nat
  exponent : Int
  /-- The two ends round to the value as well. -/
  closed : Bool

namespace Interval

/-- The interval of `significand * 2 ^ exponent`. The gap below is half as
wide where the significand is the least of its binade. -/
def ofBinary (significand : Nat) (exponent : Int) (least : Bool) :
    Interval where
  value := 4 * significand
  low := if least then 4 * significand - 1 else 4 * significand - 2
  high := 4 * significand + 2
  exponent := exponent - 2
  closed := significand % 2 == 0

variable (i : Interval)

/-- What one unit of `10 ^ k` counts in the common measure of the interval
and that grid. -/
def gridUnit (k : Int) : Nat :=
  Nat.pow 10 k.toNat * Nat.pow 2 (-i.exponent).toNat

/-- What one unit of the interval counts in the same measure. -/
def ownUnit (k : Int) : Nat :=
  Nat.pow 2 i.exponent.toNat * Nat.pow 10 (-k).toNat

/-- `d * 10 ^ k` rounds to the value. -/
def holds (d : Nat) (k : Int) : Bool :=
  let x := d * i.gridUnit k
  let lo := i.low * i.ownUnit k
  let hi := i.high * i.ownUnit k
  if i.closed then lo ≤ x && x ≤ hi else lo < x && x < hi

/-- The number of decimal digits; zero has none. -/
def digitCount (n : Nat) : Nat := if n = 0 then 0 else n.repr.length

/-- The exponent of the value's leading decimal digit: the largest `e`
with `10 ^ e` at most the value. -/
def leading : Int :=
  let num := i.value * i.ownUnit 0
  let den := i.gridUnit 0
  if den ≤ num then (digitCount (num / den) : Int) - 1
  else -(digitCount ((den - 1) / num) : Int)

end Interval

end Decimal

end LinearConstraints
