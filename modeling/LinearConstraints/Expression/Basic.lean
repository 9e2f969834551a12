/-
Linear expressions: a constant and a list of variables with coefficients.

The list of terms is kept as it was written: a variable may occur in it
several times, in any order, until `reduce` merges its occurrences into
one. Sums append, so no arithmetic is done on coefficients before it is
asked for.

Main statements: what the operations do to the constant and the terms.
-/
import LinearConstraints.Scalar.Basic
import LinearConstraints.Table

namespace LinearConstraints

/-- An unknown. Its number tells it from all others; the name is for
display only. -/
structure Variable where
  id : Nat
  name : Option String
  deriving DecidableEq, Repr

/-- A variable with a coefficient. -/
structure Term (α : Type) where
  var : Variable
  coefficient : α
  deriving BEq

/-- A linear expression: the constant plus the terms. -/
structure Expression (α : Type) where
  terms : List (Term α)
  constant : α
  deriving BEq

variable {α : Type} [Scalar α]

namespace Term

/-- The variable taken once. -/
def ofVariable (v : Variable) : Term α := ⟨v, 1⟩

/-- The term with its coefficient multiplied. -/
def scaled (t : Term α) (k : α) : Term α :=
  ⟨t.var, t.coefficient * k⟩

/-- What the term is worth at a value of its variable. -/
def valueAt (t : Term α) (x : α) : α := t.coefficient * x

end Term

namespace Expression

/-- The expression without terms. -/
def ofConstant (k : α) : Expression α := ⟨[], k⟩

/-- The expression of one term. -/
def ofTerm (t : Term α) : Expression α := ⟨[t], 0⟩

/-- The expression of one variable, taken once. -/
def ofVariable (v : Variable) : Expression α := ofTerm (.ofVariable v)

/-- The expression has no terms. -/
def isConstant (e : Expression α) : Bool := e.terms.isEmpty

/-- The variables in the order of their terms, repetitions included. -/
def vars (e : Expression α) : List Variable :=
  e.terms.map Term.var

/-- What the expression is worth under a valuation: the terms are added to
the constant from left to right. -/
def valueUnder (value : Variable → α) (e : Expression α) : α :=
  e.terms.foldl (fun sum t => sum + t.valueAt (value t.var))
    e.constant

-- ======================================================== arithmetic

/-- Every coefficient and the constant multiplied by a number. -/
def scaled (e : Expression α) (k : α) : Expression α :=
  ⟨e.terms.map (·.scaled k), e.constant * k⟩

/-- The terms of both expressions, left before right. -/
def plus (e f : Expression α) : Expression α :=
  ⟨e.terms ++ f.terms, e.constant + f.constant⟩

/-- The first expression plus the second taken minus once. -/
def minus (e f : Expression α) : Expression α := e.plus (f.scaled (-1))

/-- The product, if one of the two is constant. -/
def times? (e f : Expression α) : Option (Expression α) :=
  if e.isConstant then some (f.scaled e.constant)
  else if f.isConstant then some (e.scaled f.constant)
  else none

/-- The quotient, if the divisor is constant: the product with its
reciprocal. -/
def over? (e f : Expression α) : Option (Expression α) :=
  if f.isConstant then some (e.scaled (1 / f.constant)) else none

-- ========================================================= reduction

/-- Adds a term to the coefficient its variable has so far, zero at its
first occurrence. -/
def merge (sums : Table Variable α) (t : Term α) : Table Variable α :=
  sums.insert t.var
    ((sums.get? t.var).getD 0 + t.coefficient)

/-- The coefficients by variable, in the order of first occurrence. -/
def coefficients (e : Expression α) : Table Variable α :=
  e.terms.foldl merge .empty

/-- The expression with the occurrences of each variable merged. A sum
that cancels stays, with a coefficient of zero. -/
def reduce (e : Expression α) : Expression α :=
  ⟨e.coefficients.entries.map fun c => ⟨c.1, c.2⟩, e.constant⟩

-- =============================================== terms and constants

@[simp] theorem terms_scaled (e : Expression α) (k : α) :
    (e.scaled k).terms = e.terms.map (·.scaled k) := rfl

@[simp] theorem constant_scaled (e : Expression α) (k : α) :
    (e.scaled k).constant = e.constant * k := rfl

@[simp] theorem terms_plus (e f : Expression α) :
    (e.plus f).terms = e.terms ++ f.terms := rfl

@[simp] theorem constant_plus (e f : Expression α) :
    (e.plus f).constant = e.constant + f.constant := rfl

@[simp] theorem constant_reduce (e : Expression α) :
    e.reduce.constant = e.constant := rfl

/-- A product is refused exactly if both factors have terms. -/
theorem times?_eq_none_iff {e f : Expression α} :
    e.times? f = none ↔ e.isConstant = false ∧ f.isConstant = false := by
  unfold times?
  cases e.isConstant <;> cases f.isConstant <;> simp

/-- A quotient is refused exactly if the divisor has terms. -/
theorem over?_eq_none_iff {e f : Expression α} :
    e.over? f = none ↔ f.isConstant = false := by
  unfold over?
  cases f.isConstant <;> simp

end Expression

end LinearConstraints
