/-
Constraints: a linear expression compared with zero, with a strength.

A constraint is told apart from all others by its number, not by what it
says: two constraints built from the same expression are different, and
so is a copy with another strength or label. Whoever builds a constraint
gives it a fresh number. An edit constraint ties one variable to a value
that may be suggested again and again.

Main statements: reading the written name of a relation undoes writing.
-/
import LinearConstraints.Expression.Basic
import LinearConstraints.Strength

namespace LinearConstraints

-- ========================================================= relations

/-- How the expression of a constraint compares with zero. -/
inductive Relation where
  | lessOrEqual
  | equal
  | greaterOrEqual
  deriving DecidableEq, Repr

namespace Relation

/-- The sign that stands between the two sides. -/
def symbol : Relation → String
  | lessOrEqual => "<="
  | equal => "=="
  | greaterOrEqual => ">="

/-- The name under which a relation is stored. -/
def name : Relation → String
  | lessOrEqual => "LessOrEqual"
  | equal => "Equal"
  | greaterOrEqual => "GreaterOrEqual"

/-- Reads a stored name; only the exact names are known. -/
def ofName? : String → Option Relation
  | "LessOrEqual" => some lessOrEqual
  | "Equal" => some equal
  | "GreaterOrEqual" => some greaterOrEqual
  | _ => none

@[simp] theorem ofName?_name (r : Relation) : ofName? r.name = some r := by
  cases r <;> rfl

end Relation

-- ======================================================= constraints

/-- The relation of an expression to zero, at a strength. -/
structure Constraint (α : Type) where
  id : Nat
  expression : Expression α
  relation : Relation
  strength : Strength α
  label : Option String

variable {α : Type} [Scalar α]

namespace Constraint

/-- A constraint on an expression, which is reduced; the strength is
clipped. -/
def new (id : Nat) (e : Expression α) (r : Relation) (s : Strength α) :
    Constraint α :=
  ⟨id, e.reduce, r, s.clip, none⟩

/-- A constraint that must hold. -/
def required (id : Nat) (e : Expression α) (r : Relation) :
    Constraint α :=
  new id e r .required

/-- The required constraint that two sides are related: their difference
is compared with zero. -/
def relate (id : Nat) (lhs : Expression α) (r : Relation)
    (rhs : Expression α) : Constraint α :=
  required id (lhs.minus rhs) r

/-- A new constraint that says the same at another strength. -/
def withStrength (id : Nat) (c : Constraint α) (s : Strength α) :
    Constraint α :=
  { c with id, strength := s.clip }

/-- A new constraint that says the same under a label. -/
def labeled (id : Nat) (c : Constraint α) (label : String) :
    Constraint α :=
  { c with id, label := some label }

end Constraint

-- ================================================== edit constraints

/-- The constraint that ties a variable to a suggested value. It is
written `v == 0`; the solver moves it to the value suggested last. -/
structure EditConstraint (α : Type) where
  var : Variable
  constraint : Constraint α
  suggested : Option α

namespace EditConstraint

/-- An edit constraint for which nothing has been suggested yet. -/
def new (id : Nat) (v : Variable) (s : Strength α) : EditConstraint α :=
  ⟨v, .new id (.ofVariable v) .equal s, none⟩

/-- Records a suggested value. -/
def suggest (e : EditConstraint α) (x : α) : EditConstraint α :=
  { e with suggested := some x }

/-- The value last suggested, zero before any suggestion. -/
def target (e : EditConstraint α) : α := e.suggested.getD 0

end EditConstraint

end LinearConstraints
