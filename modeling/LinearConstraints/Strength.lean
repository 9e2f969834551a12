/-
Strengths: how much a constraint matters beside the others.

A strength packs three priorities (strong, medium, weak), each from zero
to a thousand, into one number, a thousand of one weighing as much as one
of the next. The largest number so made is the required strength, and a
constraint at or above it may never be violated.
-/
import LinearConstraints.Decimal.Positional
import LinearConstraints.Scalar.Double

namespace LinearConstraints

/-- The weight of a constraint. -/
structure Strength (α : Type) where
  value : α

namespace Strength

variable {α : Type} [Scalar α]

-- ============================================================= names

/-- The strength of a constraint that must hold. -/
def required : Strength α := ⟨(1001001000 : Nat)⟩

/-- One unit of strong priority. -/
def strong : Strength α := ⟨(1000000 : Nat)⟩

/-- One unit of medium priority. -/
def medium : Strength α := ⟨(1000 : Nat)⟩

/-- One unit of weak priority. -/
def weak : Strength α := ⟨1⟩

/-- The strength of a constraint that does not matter. -/
def zero : Strength α := ⟨0⟩

instance : Inhabited (Strength α) := ⟨zero⟩

-- ====================================================== construction

/-- The strength moved into the interval from zero to `required`. -/
def clip (s : Strength α) : Strength α :=
  ⟨Scalar.clamp (required : Strength α).value s.value⟩

/-- A strength with a given value, clipped. -/
def ofValue (v : α) : Strength α := clip ⟨v⟩

/-- One priority, scaled by the weight and kept from zero to a thousand. -/
def component (weight v : α) : α := Scalar.clamp (1000 : Nat) (v * weight)

/-- Packs three priorities, each scaled by `weight`. -/
def ofComponents (strong medium weak weight : α) : Strength α :=
  ⟨component weight strong * (1000000 : Nat)
    + component weight medium * (1000 : Nat) + component weight weak⟩

-- ======================================================== comparison

/-- The strength may never be relaxed. -/
def isRequired (s : Strength α) : Bool :=
  decide ((required : Strength α).value ≤ s.value)

/-- The order of two strengths; a strength that is not a number compares
with none. -/
def compare? (s t : Strength α) : Option Ordering :=
  if s.value < t.value then some .lt
  else if s.value == t.value then some .eq
  else if t.value < s.value then some .gt
  else none

-- ============================================================== text

/-- A strength of a named value shows its name, any other its value. -/
def text (s : Strength Float) : String :=
  if s.value == (required : Strength Float).value then "REQUIRED"
  else if s.value == (strong : Strength Float).value then "STRONG"
  else if s.value == (medium : Strength Float).value then "MEDIUM"
  else if s.value == (weak : Strength Float).value then "WEAK"
  else Decimal.ofDouble s.value

end Strength

end LinearConstraints
