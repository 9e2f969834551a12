/-
The shortest decimal that reads back as a given binary number.

On the grid of multiples of `10 ^ k` only the two neighbours of the value
need to be looked at: if any multiple rounds to the value, one of them
does. The search starts at the grid of the leading digit and refines it
until a neighbour rounds to the value; of two neighbours that both do, the
nearer is taken, and the upper one if both are equally near.
-/
import LinearConstraints.Decimal.Interval

namespace LinearConstraints.Decimal

namespace Interval

variable (i : Interval)

/-- The multiple of `10 ^ k` nearest to the value among its two neighbours
that round to it. -/
def nearest? (k : Int) : Option Nat :=
  let own := i.value * i.ownUnit k
  let unit := i.gridUnit k
  let d := own / unit
  match i.holds d k, i.holds (d + 1) k with
  | true, true =>
      some (if 2 * own < (2 * d + 1) * unit then d else d + 1)
  | true, false => some d
  | false, true => some (d + 1)
  | false, false => none

/-- Searches ever finer grids, `n` of them at most. -/
def refine : Nat → Int → Decimal
  | 0, k => ⟨i.value * i.ownUnit k / i.gridUnit k, k⟩
  | n + 1, k =>
      match i.nearest? k with
      | some d => if d % 10 = 0 then ⟨d / 10, k + 1⟩ else ⟨d, k⟩
      | none => refine n (k - 1)

end Interval

/-- The fewest digits that read back, and of those the nearest: seventeen
digits always suffice for a double. -/
def shortest (i : Interval) : Decimal := i.refine 17 i.leading

end LinearConstraints.Decimal
