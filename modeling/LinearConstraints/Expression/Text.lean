/-
The written form of variables, terms and expressions.
-/
import LinearConstraints.Decimal.Positional
import LinearConstraints.Expression.Basic
import LinearConstraints.Scalar.Double

namespace LinearConstraints

/-- A variable shows its name, or `v` and its number if it has none. -/
def Variable.text (v : Variable) : String :=
  match v.name with
  | some name => name
  | none => "v" ++ v.id.repr

/-- A coefficient of one, within the tolerance, is left out. -/
def Term.text (t : Term Float) : String :=
  if Scalar.nearZero (t.coefficient - 1) then t.var.text
  else Decimal.ofDouble t.coefficient ++ " * " ++ t.var.text

/-- The terms joined by plus signs, then the constant unless it is near
zero and there are terms. -/
def Expression.text (e : Expression Float) : String :=
  let constant :=
    if e.isConstant || !Scalar.nearZero e.constant then
      [Decimal.ofDouble e.constant]
    else []
  " + ".intercalate (e.terms.map Term.text ++ constant)

end LinearConstraints
