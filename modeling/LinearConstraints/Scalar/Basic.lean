/-
The numbers a solver computes with.

Everything in this library is written once, over a `Scalar`: a type with
arithmetic, comparisons, a test for values that count as zero, and a test
for quotients that may take part in a ratio test. No law is asked of any
of them, so machine numbers qualify, NaN and infinities included; where a
law is needed (exact arithmetic, say) the statement names the type that
has it. `Scalar/Double` and `Scalar/Rational` hold the instances.

`clamp` moves a number into the interval that begins at zero.
-/

namespace LinearConstraints

/-- Numbers with the arithmetic, comparisons and tests that building and
solving linear constraints needs. -/
class Scalar (α : Type) where
  zero : α
  one : α
  natCast : Nat → α
  neg : α → α
  add : α → α → α
  sub : α → α → α
  mul : α → α → α
  div : α → α → α
  /-- The numbers are equal. A value that is not a number is not equal to
  itself. -/
  beq : α → α → Bool
  lt : α → α → Prop
  le : α → α → Prop
  decLt : DecidableRel lt
  decLe : DecidableRel le
  /-- The value counts as zero: a coefficient this small is dropped and a
  constant this small is satisfied. -/
  nearZero : α → Bool
  /-- The value may win a ratio test: it lies below the largest number.
  Exact numbers have no largest, so all of them may. -/
  isRatio : α → Bool

namespace Scalar

variable {α : Type} [Scalar α]

-- =========================================================== notation

-- A type's own instances come first: these stand in only where nothing
-- but `Scalar` is known of it.

instance (priority := 100) instZero : Zero α := ⟨zero⟩

instance (priority := 100) instOne : One α := ⟨one⟩

instance (priority := 100) instNatCast : NatCast α := ⟨natCast⟩

instance (priority := 100) instNeg : Neg α := ⟨neg⟩

instance (priority := 100) instAdd : Add α := ⟨add⟩

instance (priority := 100) instSub : Sub α := ⟨sub⟩

instance (priority := 100) instMul : Mul α := ⟨mul⟩

instance (priority := 100) instDiv : Div α := ⟨div⟩

instance (priority := 100) instBEq : BEq α := ⟨beq⟩

instance (priority := 100) instLT : LT α := ⟨lt⟩

instance (priority := 100) instLE : LE α := ⟨le⟩

instance (priority := 100) instDecidableLT : DecidableLT α := decLt

instance (priority := 100) instDecidableLE : DecidableLE α := decLe

-- =========================================================== clamping

/-- The value moved into the interval from zero to `top`. Whatever is not
above zero becomes zero: a negative value, but also negative zero and a
value that compares with nothing (NaN). -/
def clamp (top v : α) : α :=
  if 0 < v then if v ≤ top then v else top else 0

end Scalar

end LinearConstraints
