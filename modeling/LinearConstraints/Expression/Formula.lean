/-
Formulas: arithmetic over numbers, variables, terms and expressions.

What a caller writes when building constraints is an arithmetic formula
whose leaves are of four kinds. The kind of a result follows from the
kinds of the operands: sums and differences are expressions, multiples
of a variable or term are terms. A product is linear, and so defined,
only if one factor is constant.
-/
import LinearConstraints.Expression.Basic

namespace LinearConstraints

/-- A linear quantity of one of the four kinds. -/
inductive Quantity (α : Type) where
  | number (k : α)
  | var (v : Variable)
  | term (t : Term α)
  | expression (e : Expression α)

variable {α : Type} [Scalar α]

namespace Quantity

/-- The quantity as an expression. -/
def toExpression : Quantity α → Expression α
  | number k => .ofConstant k
  | var v => .ofVariable v
  | term t => .ofTerm t
  | expression e => e

/-- The quantity multiplied by a number; a variable becomes a term. -/
def scaled (k : α) : Quantity α → Quantity α
  | number x => number (x * k)
  | var v => term ((Term.ofVariable v).scaled k)
  | term t => term (t.scaled k)
  | expression e => expression (e.scaled k)

/-- The product of two quantities one of which is a number. -/
def times? : Quantity α → Quantity α → Option (Quantity α)
  | q, number k => some (q.scaled k)
  | number k, q => some (q.scaled k)
  | _, _ => none

/-- The quotient by a number: the product with its reciprocal. -/
def over? : Quantity α → Quantity α → Option (Quantity α)
  | q, number k => some (q.scaled (1 / k))
  | _, _ => none

/-- What the quantity is worth under a valuation. -/
def valueUnder (value : Variable → α) : Quantity α → α
  | term t => t.valueAt (value t.var)
  | q => q.toExpression.valueUnder value

/-- The quantities are written alike: two terms with the same variable and
coefficient, or two expressions with the same terms in the same order and
the same constant. -/
def same : Quantity α → Quantity α → Bool
  | term s, term t => s == t
  | p, q => p.toExpression == q.toExpression

end Quantity

/-- Arithmetic whose leaves are linear quantities. -/
inductive Formula (α : Type) where
  | quantity (q : Quantity α)
  | sum (a b : Formula α)
  | difference (a b : Formula α)
  /-- Scaling: one of the two is a number. -/
  | product (a b : Formula α)
  /-- Scaling by the reciprocal of a number. -/
  | quotient (a b : Formula α)
  | negation (a : Formula α)
  /-- The operand as an expression. -/
  | expanded (a : Formula α)
  /-- The operand as an expression with its terms merged. -/
  | reduced (a : Formula α)
  /-- The operand as an expression, multiplied by a number. -/
  | scaled (a : Formula α) (k : α)
  /-- The product of two expressions, one of them constant. -/
  | expressionProduct (a b : Formula α)
  /-- The quotient of two expressions, the second one constant. -/
  | expressionQuotient (a b : Formula α)

namespace Formula

/-- The quantity that a formula denotes; none if it is not linear. -/
def eval : Formula α → Option (Quantity α)
  | quantity q => some q
  | sum a b => do
      let x ← a.eval
      let y ← b.eval
      some (.expression (x.toExpression.plus y.toExpression))
  | difference a b => do
      let x ← a.eval
      let y ← b.eval
      some (.expression (x.toExpression.minus y.toExpression))
  | product a b => do
      let x ← a.eval
      let y ← b.eval
      x.times? y
  | quotient a b => do
      let x ← a.eval
      let y ← b.eval
      x.over? y
  | negation a => do
      let x ← a.eval
      some (x.scaled (-1))
  | expanded a => do
      let x ← a.eval
      some (.expression x.toExpression)
  | reduced a => do
      let x ← a.eval
      some (.expression x.toExpression.reduce)
  | scaled a k => do
      let x ← a.eval
      some (.expression (x.toExpression.scaled k))
  | expressionProduct a b => do
      let x ← a.eval
      let y ← b.eval
      let e ← x.toExpression.times? y.toExpression
      some (.expression e)
  | expressionQuotient a b => do
      let x ← a.eval
      let y ← b.eval
      let e ← x.toExpression.over? y.toExpression
      some (.expression e)

/-- The expression that a formula denotes; none if it is not linear. -/
def toExpression? (f : Formula α) : Option (Expression α) :=
  f.eval.map Quantity.toExpression

/-- The text that explains why a formula denotes nothing. -/
def nonLinearMessage : String := "Expression is non-linear"

end Formula

end LinearConstraints
