/-
Formulas mean arithmetic, in exact arithmetic.

Building an expression never does the arithmetic that was written: sums
append terms, differences append them with the opposite sign, products and
quotients scale, and variables that occur twice wait for a reduction.
Whatever is built that way is worth, under every valuation of the
variables, what the formula says when it is read as arithmetic.

# Formulas that denote something

A formula can fail in two ways. Its operands may be of kinds that the
operator does not take: a product needs a number on one side, and so does
a quotient as its divisor. This can be told from the formula alone
(`kind?`), before anything is computed. And the products and quotients of
expressions are refused if they are not linear, which can be told as well,
from where terms occur (`Formula.linear`).

Main statements: `denotes_of_eval`, what a result of an evaluation is;
`exists_eval`, when there is one; `valueUnder_reduce`; and
`formulas_mean_arithmetic`, for formulas and the constraints between them.
-/
import Mathlib.Algebra.BigOperators.Ring.List
import LinearConstraints.Constraint.Meaning
import LinearConstraints.Expression.Formula
import LinearConstraints.Proofs.Reduction

namespace LinearConstraints

variable {v : Variable → Rat}

-- ========================================================= expressions

namespace Expression

/-- The value of an expression: the constant and all terms, in whatever
order. -/
theorem valueUnder_eq (v : Variable → Rat) (e : Expression Rat) :
    e.valueUnder v
      = e.constant + (e.terms.map fun t => t.coefficient * v t.var).sum := by
  have key : ∀ (l : List (Term Rat)) (k : Rat),
      l.foldl (fun sum t => sum + t.valueAt (v t.var)) k
        = k + (l.map fun t => t.coefficient * v t.var).sum := by
    intro l
    induction l with
    | nil => exact fun k => (add_zero k).symm
    | cons t l ih =>
        intro k
        rw [List.foldl_cons, ih, List.map_cons, List.sum_cons, ← add_assoc]
        rfl
  exact key e.terms e.constant

theorem valueUnder_plus (e f : Expression Rat) :
    (e.plus f).valueUnder v = e.valueUnder v + f.valueUnder v := by
  rw [valueUnder_eq, valueUnder_eq, valueUnder_eq, terms_plus,
    List.map_append, List.sum_append]
  show e.constant + f.constant + _ = _
  ring

theorem valueUnder_scaled (e : Expression Rat) (k : Rat) :
    (e.scaled k).valueUnder v = e.valueUnder v * k := by
  have hterms : ((e.scaled k).terms.map fun t => t.coefficient * v t.var)
      = e.terms.map fun t => t.coefficient * v t.var * k := by
    rw [terms_scaled, List.map_map]
    refine List.map_congr_left fun t _ => ?_
    show t.coefficient * k * v t.var = _
    ring
  rw [valueUnder_eq, valueUnder_eq, hterms, List.sum_map_mul_right]
  show e.constant * k + _ = _
  ring

theorem valueUnder_minus (e f : Expression Rat) :
    (e.minus f).valueUnder v = e.valueUnder v - f.valueUnder v := by
  have h := valueUnder_scaled (v := v) f (-1)
  unfold minus
  rw [valueUnder_plus]
  change e.valueUnder v + (f.scaled (-1)).valueUnder v = _
  rw [h]
  ring

/-- Without terms the value is the constant. -/
theorem valueUnder_of_isConstant {e : Expression Rat}
    (h : e.isConstant = true) : e.valueUnder v = e.constant := by
  unfold isConstant at h
  rw [valueUnder_eq, List.isEmpty_iff.1 h]
  exact add_zero _

theorem valueUnder_times? {e f p : Expression Rat}
    (h : e.times? f = some p) :
    p.valueUnder v = e.valueUnder v * f.valueUnder v := by
  unfold times? at h
  split at h
  case isTrue he =>
    obtain rfl := Option.some.inj h
    rw [valueUnder_scaled, valueUnder_of_isConstant he, mul_comm]
  · split at h
    case isTrue hf =>
      obtain rfl := Option.some.inj h
      rw [valueUnder_scaled, valueUnder_of_isConstant hf]
    · cases h

theorem valueUnder_over? {e f p : Expression Rat}
    (h : e.over? f = some p) :
    p.valueUnder v = e.valueUnder v / f.valueUnder v := by
  unfold over? at h
  split at h
  case isTrue hf =>
    obtain rfl := Option.some.inj h
    rw [valueUnder_scaled, valueUnder_of_isConstant hf]
    exact mul_one_div ..
  · cases h

/-- Merging a term adds what the term is worth to the total. -/
private theorem sum_foldl_merge (l : List (Term Rat)) :
    ∀ T : Table Variable Rat,
      (l.foldl merge T).sum (fun x k => k * v x)
        = (T.sum fun x k => k * v x)
          + (l.map fun t => t.coefficient * v t.var).sum := by
  induction l with
  | nil => exact fun T => (add_zero _).symm
  | cons t l ih =>
      intro T
      have hmerge : (merge T t).sum (fun x k => k * v x)
          = (T.sum fun x k => k * v x) + t.coefficient * v t.var := by
        have h := T.sum_insert t.var ((T.get? t.var).getD 0 + t.coefficient)
          fun x k => k * v x
        show (T.insert _ _).sum _ = _
        cases ht : T.get? t.var with
        | none =>
            simp only [ht, Option.elim_none, Option.getD_none] at h ⊢
            linarith
        | some a =>
            simp only [ht, Option.elim_some, Option.getD_some] at h ⊢
            linarith
      rw [List.foldl_cons, ih, hmerge, List.map_cons, List.sum_cons]
      ring

/-- Reducing keeps the value. -/
theorem valueUnder_reduce (e : Expression Rat) :
    e.reduce.valueUnder v = e.valueUnder v := by
  have hterms : (e.reduce.terms.map fun t => t.coefficient * v t.var)
      = e.coefficients.entries.map fun c => c.2 * v c.1 :=
    List.map_map
  have hsum := sum_foldl_merge (v := v) e.terms .empty
  rw [valueUnder_eq, valueUnder_eq, hterms]
  unfold Table.sum at hsum
  show e.constant + _ = e.constant + _
  rw [show e.coefficients = e.terms.foldl merge .empty from rfl, hsum]
  congr 1
  exact zero_add _

section Terms

variable {α : Type} [Scalar α]

theorem isConstant_plus (e f : Expression α) :
    (e.plus f).isConstant = (e.isConstant && f.isConstant) := by
  unfold isConstant
  rw [terms_plus]
  cases e.terms <;> rfl

@[simp] theorem isConstant_scaled (e : Expression α) (k : α) :
    (e.scaled k).isConstant = e.isConstant :=
  List.isEmpty_map

theorem isConstant_minus (e f : Expression α) :
    (e.minus f).isConstant = (e.isConstant && f.isConstant) := by
  unfold minus
  rw [isConstant_plus, isConstant_scaled]

/-- An expression with terms keeps one of each variable. -/
@[simp] theorem isConstant_reduce (e : Expression α) :
    e.reduce.isConstant = e.isConstant := by
  have hvars : ∀ f : Expression α, f.isConstant = f.vars.isEmpty :=
    fun f => (List.isEmpty_map ..).symm
  rw [hvars, hvars, Bool.eq_iff_iff, List.isEmpty_iff, List.isEmpty_iff,
    List.eq_nil_iff_forall_not_mem, List.eq_nil_iff_forall_not_mem]
  exact forall_congr' fun x => not_congr mem_vars_reduce_iff

/-- A product has a constant factor, and terms where the factors have. -/
theorem isConstant_of_times? {e f p : Expression α}
    (h : e.times? f = some p) :
    (e.isConstant || f.isConstant) = true
      ∧ p.isConstant = (e.isConstant && f.isConstant) := by
  unfold times? at h
  split at h
  case isTrue he =>
    obtain rfl := Option.some.inj h
    rw [isConstant_scaled, he]
    exact ⟨rfl, (Bool.true_and _).symm⟩
  · split at h
    case isTrue hf =>
      obtain rfl := Option.some.inj h
      rw [isConstant_scaled, hf]
      exact ⟨Bool.or_true _, (Bool.and_true _).symm⟩
    · cases h

/-- A quotient has a constant divisor, and terms where the dividend
has. -/
theorem isConstant_of_over? {e f p : Expression α}
    (h : e.over? f = some p) :
    f.isConstant = true ∧ p.isConstant = e.isConstant := by
  unfold over? at h
  split at h
  case isTrue hf =>
    obtain rfl := Option.some.inj h
    exact ⟨hf, isConstant_scaled ..⟩
  · cases h

end Terms

end Expression

-- ========================================================== quantities

namespace Quantity

/-- The four kinds of quantities. -/
inductive Kind where
  | number
  | var
  | term
  | expression
  deriving DecidableEq, Repr

/-- The kind of a multiple. -/
def Kind.multiple : Kind → Kind
  | number => number
  | var => term
  | term => term
  | expression => expression

/-- The kind of a product, one factor of which has to be a number. -/
def Kind.times? : Kind → Kind → Option Kind
  | κ, number => some κ.multiple
  | number, κ => some κ.multiple
  | _, _ => none

/-- The kind of a quotient, the divisor of which has to be a number. -/
def Kind.over? : Kind → Kind → Option Kind
  | κ, number => some κ.multiple
  | _, _ => none

section Kinds

variable {α : Type}

/-- The kind of a quantity. -/
def kind : Quantity α → Kind
  | number _ => .number
  | var _ => .var
  | term _ => .term
  | expression _ => .expression

variable [Scalar α]

/-- The quantity takes a variable at least once. -/
def hasTerms (q : Quantity α) : Bool := !q.toExpression.isConstant

theorem hasTerms_iff {q : Quantity α} :
    q.hasTerms = true ↔ q.toExpression.terms ≠ [] := by
  unfold hasTerms Expression.isConstant
  rw [Bool.not_eq_true', List.isEmpty_eq_false_iff]

@[simp] theorem kind_scaled (k : α) (q : Quantity α) :
    (q.scaled k).kind = q.kind.multiple := by
  cases q <;> rfl

@[simp] theorem hasTerms_scaled (k : α) (q : Quantity α) :
    (q.scaled k).hasTerms = q.hasTerms := by
  cases q with
  | expression e => exact congrArg Bool.not (Expression.isConstant_scaled e k)
  | _ => rfl

/-- The operands of a product: a number and whatever it multiplies. -/
theorem times?_eq_some_iff {p q m : Quantity α} :
    p.times? q = some m ↔
      (∃ k, q = number k ∧ m = p.scaled k)
      ∨ ∃ k, p = number k ∧ q.kind ≠ .number ∧ m = q.scaled k := by
  cases p <;> cases q <;> simp [times?, kind, eq_comm]

theorem over?_eq_some_iff {p q m : Quantity α} :
    p.over? q = some m ↔ ∃ k, q = number k ∧ m = p.scaled (1 / k) := by
  cases p <;> cases q <;> simp [over?, eq_comm]

/-- Whether a product is defined can be told from the kinds. -/
theorem kind_times? (p q : Quantity α) :
    (p.times? q).map kind = p.kind.times? q.kind := by
  cases p <;> cases q <;> rfl

theorem kind_over? (p q : Quantity α) :
    (p.over? q).map kind = p.kind.over? q.kind := by
  cases p <;> cases q <;> rfl

end Kinds

/-- What a quantity means under a valuation, as arithmetic. -/
def meaning (v : Variable → Rat) : Quantity Rat → Rat
  | number k => k
  | var x => v x
  | term t => t.coefficient * v t.var
  | expression e =>
      e.constant + (e.terms.map fun t => t.coefficient * v t.var).sum

/-- As an expression, every quantity is worth what it means. -/
theorem valueUnder_toExpression (q : Quantity Rat) :
    q.toExpression.valueUnder v = q.meaning v := by
  rw [Expression.valueUnder_eq]
  cases q with
  | number k => exact add_zero k
  | var x =>
      show (0 : Rat) + (1 * v x + 0) = v x
      ring
  | term t =>
      show (0 : Rat) + (t.coefficient * v t.var + 0) = t.coefficient * v t.var
      ring
  | expression e => rfl

/-- Every quantity is worth what it means. -/
theorem valueUnder_eq_meaning (q : Quantity Rat) :
    q.valueUnder v = q.meaning v := by
  cases q with
  | term t => rfl
  | _ => exact valueUnder_toExpression _

theorem meaning_scaled (k : Rat) (q : Quantity Rat) :
    (q.scaled k).meaning v = q.meaning v * k := by
  cases q with
  | number x => rfl
  | var x =>
      show 1 * k * v x = v x * k
      ring
  | term t =>
      show t.coefficient * k * v t.var = t.coefficient * v t.var * k
      ring
  | expression e =>
      rw [← valueUnder_toExpression, ← valueUnder_toExpression]
      exact Expression.valueUnder_scaled e k

end Quantity

-- ============================================================ formulas

namespace Formula

section Static

variable {α : Type} [Scalar α]

/-- The kind of what a formula denotes, as far as it can be told from the
operators; none if an operator does not take the kinds of its operands. -/
def kind? : Formula α → Option Quantity.Kind
  | quantity q => some q.kind
  | sum a b | difference a b | expressionProduct a b
  | expressionQuotient a b => do
      let _ ← a.kind?
      let _ ← b.kind?
      some .expression
  | product a b => do
      let κ ← a.kind?
      let ι ← b.kind?
      κ.times? ι
  | quotient a b => do
      let κ ← a.kind?
      let ι ← b.kind?
      κ.over? ι
  | negation a => do
      let κ ← a.kind?
      some κ.multiple
  | expanded a | reduced a | scaled a _ => do
      let _ ← a.kind?
      some .expression

/-- The formula has a variable in it, in a place that evaluation reads. -/
def hasTerms : Formula α → Bool
  | quantity q => q.hasTerms
  | sum a b | difference a b | product a b | quotient a b
  | expressionProduct a b | expressionQuotient a b =>
      a.hasTerms || b.hasTerms
  | negation a | expanded a | reduced a | scaled a _ => a.hasTerms

/-- No two expressions with terms are multiplied, and none is a
divisor. -/
def linear : Formula α → Bool
  | quantity _ => true
  | expressionProduct a b =>
      a.linear && b.linear && !(a.hasTerms && b.hasTerms)
  | expressionQuotient a b => a.linear && b.linear && !b.hasTerms
  | sum a b | difference a b | product a b | quotient a b =>
      a.linear && b.linear
  | negation a | expanded a | reduced a | scaled a _ => a.linear

end Static

/-- What a formula means under a valuation, as arithmetic. -/
def meaning (v : Variable → Rat) : Formula Rat → Rat
  | quantity q => q.meaning v
  | sum a b => a.meaning v + b.meaning v
  | difference a b => a.meaning v - b.meaning v
  | product a b | expressionProduct a b => a.meaning v * b.meaning v
  | quotient a b | expressionQuotient a b => a.meaning v / b.meaning v
  | negation a => -a.meaning v
  | expanded a | reduced a => a.meaning v
  | scaled a k => a.meaning v * k

variable {f a b : Formula Rat} {q x y : Quantity Rat}
  {e : Expression Rat}

/-- What is known of a quantity that a formula evaluates to: its kind, if
it has terms, and what it means. -/
structure Denotes (f : Formula Rat) (q : Quantity Rat) : Prop where
  kind : f.kind? = some q.kind
  hasTerms : f.hasTerms = q.hasTerms
  linear : f.linear = true
  meaning : ∀ v, f.meaning v = q.meaning v

namespace Denotes

theorem kind_eq {κ : Quantity.Kind} (h : f.Denotes q) (hκ : f.kind? = some κ) :
    q.kind = κ :=
  Option.some.inj (h.kind.symm.trans hκ)

theorem quantity (q : Quantity Rat) : Denotes (.quantity q) q :=
  ⟨rfl, rfl, rfl, fun _ => rfl⟩

/-- As an expression, the quantity is worth what the formula means. -/
theorem valueUnder (h : f.Denotes q) (v : Variable → Rat) :
    q.toExpression.valueUnder v = f.meaning v :=
  (Quantity.valueUnder_toExpression q).trans (h.meaning v).symm

/-- An operator that takes its operand as an expression. -/
private theorem unary (ha : a.Denotes x)
    (hkind : f.kind? = a.kind?.bind fun _ => some .expression)
    (hterms : f.hasTerms = a.hasTerms) (hlinear : f.linear = a.linear)
    (hconst : e.isConstant = x.toExpression.isConstant)
    (hmeaning : ∀ v, e.valueUnder v = f.meaning v) :
    f.Denotes (.expression e) where
  kind := by rw [hkind, ha.kind]; rfl
  hasTerms := by
    rw [hterms, ha.hasTerms]
    exact congrArg Bool.not hconst.symm
  linear := hlinear.trans ha.linear
  meaning v :=
    (hmeaning v).symm.trans
      (Quantity.valueUnder_toExpression (.expression e))

/-- An operator that takes both operands as expressions, and has terms
where they have. -/
private theorem binary (ha : a.Denotes x) (hb : b.Denotes y)
    (hkind : f.kind? = a.kind?.bind fun _ => b.kind?.bind fun _ =>
      some .expression)
    (hterms : f.hasTerms = (a.hasTerms || b.hasTerms))
    (hlinear : f.linear = true)
    (hconst : e.isConstant
      = (x.toExpression.isConstant && y.toExpression.isConstant))
    (hmeaning : ∀ v, e.valueUnder v = f.meaning v) :
    f.Denotes (.expression e) where
  kind := by rw [hkind, ha.kind, hb.kind]; rfl
  hasTerms := by
    rw [hterms, ha.hasTerms, hb.hasTerms]
    unfold Quantity.hasTerms
    rw [← Bool.not_and, ← hconst]
    rfl
  linear := hlinear
  meaning v :=
    (hmeaning v).symm.trans
      (Quantity.valueUnder_toExpression (.expression e))

theorem sum (ha : a.Denotes x) (hb : b.Denotes y) :
    Denotes (.sum a b)
      (.expression (x.toExpression.plus y.toExpression)) := by
  refine ha.binary hb rfl rfl ?_ (Expression.isConstant_plus ..)
    fun v => ?_
  · rw [Formula.linear, ha.linear, hb.linear]
    rfl
  · rw [Expression.valueUnder_plus, ha.valueUnder, hb.valueUnder]
    rfl

theorem difference (ha : a.Denotes x) (hb : b.Denotes y) :
    Denotes (.difference a b)
      (.expression (x.toExpression.minus y.toExpression)) := by
  refine ha.binary hb rfl rfl ?_ (Expression.isConstant_minus ..)
    fun v => ?_
  · rw [Formula.linear, ha.linear, hb.linear]
    rfl
  · rw [Expression.valueUnder_minus, ha.valueUnder, hb.valueUnder]
    rfl

theorem product (ha : a.Denotes x) (hb : b.Denotes y)
    (h : x.times? y = some q) : Denotes (.product a b) q := by
  have hkind := Quantity.kind_times? x y
  rw [h] at hkind
  refine ⟨?_, ?_, ?_, fun v => ?_⟩
  · rw [kind?, ha.kind, hb.kind]
    exact hkind.symm
  · rw [Formula.hasTerms, ha.hasTerms, hb.hasTerms]
    rcases Quantity.times?_eq_some_iff.1 h with
      ⟨k, rfl, rfl⟩ | ⟨k, rfl, -, rfl⟩
    · rw [Quantity.hasTerms_scaled]
      exact Bool.or_false _
    · rw [Quantity.hasTerms_scaled]
      exact Bool.false_or _
  · rw [Formula.linear, ha.linear, hb.linear]
    rfl
  · rw [Formula.meaning, ha.meaning, hb.meaning]
    rcases Quantity.times?_eq_some_iff.1 h with
      ⟨k, rfl, rfl⟩ | ⟨k, rfl, -, rfl⟩
    · exact (Quantity.meaning_scaled k x).symm
    · rw [Quantity.meaning_scaled, mul_comm]
      rfl

theorem quotient (ha : a.Denotes x) (hb : b.Denotes y)
    (h : x.over? y = some q) : Denotes (.quotient a b) q := by
  have hkind := Quantity.kind_over? x y
  rw [h] at hkind
  obtain ⟨k, rfl, rfl⟩ := Quantity.over?_eq_some_iff.1 h
  refine ⟨?_, ?_, ?_, fun v => ?_⟩
  · rw [kind?, ha.kind, hb.kind]
    exact hkind.symm
  · rw [Formula.hasTerms, ha.hasTerms, hb.hasTerms,
      Quantity.hasTerms_scaled]
    exact Bool.or_false _
  · rw [Formula.linear, ha.linear, hb.linear]
    rfl
  · rw [Formula.meaning, ha.meaning, hb.meaning]
    refine Eq.trans ?_ (Quantity.meaning_scaled (1 / k) x).symm
    exact (mul_one_div ..).symm

theorem negation (ha : a.Denotes x) :
    Denotes (.negation a) (x.scaled (-1)) where
  kind := by rw [kind?, ha.kind, Quantity.kind_scaled]; rfl
  hasTerms := by
    rw [Formula.hasTerms, ha.hasTerms, Quantity.hasTerms_scaled]
  linear := by rw [Formula.linear, ha.linear]
  meaning v := by
    have h := Quantity.meaning_scaled (v := v) (-1) x
    rw [Formula.meaning, ha.meaning]
    refine Eq.trans ?_ h.symm
    ring

theorem expanded (ha : a.Denotes x) :
    Denotes (.expanded a) (.expression x.toExpression) :=
  ha.unary rfl rfl rfl rfl ha.valueUnder

theorem reduced (ha : a.Denotes x) :
    Denotes (.reduced a) (.expression x.toExpression.reduce) :=
  ha.unary rfl rfl rfl (Expression.isConstant_reduce _) fun v =>
    (Expression.valueUnder_reduce _).trans (ha.valueUnder v)

theorem scaled (ha : a.Denotes x) (k : Rat) :
    Denotes (.scaled a k) (.expression (x.toExpression.scaled k)) := by
  refine ha.unary rfl rfl rfl (Expression.isConstant_scaled ..) fun v => ?_
  rw [Expression.valueUnder_scaled, ha.valueUnder]
  rfl

theorem expressionProduct (ha : a.Denotes x) (hb : b.Denotes y)
    (h : x.toExpression.times? y.toExpression = some e) :
    Denotes (.expressionProduct a b) (.expression e) := by
  obtain ⟨hfactor, hconst⟩ := Expression.isConstant_of_times? h
  refine ha.binary hb rfl rfl ?_ hconst fun v => ?_
  · rw [Formula.linear, ha.linear, hb.linear, ha.hasTerms, hb.hasTerms]
    unfold Quantity.hasTerms
    rw [← Bool.not_or, hfactor]
    rfl
  · rw [Expression.valueUnder_times? h, ha.valueUnder, hb.valueUnder]
    rfl

theorem expressionQuotient (ha : a.Denotes x) (hb : b.Denotes y)
    (h : x.toExpression.over? y.toExpression = some e) :
    Denotes (.expressionQuotient a b) (.expression e) := by
  obtain ⟨hdivisor, hconst⟩ := Expression.isConstant_of_over? h
  refine ha.binary hb rfl rfl ?_ ?_ fun v => ?_
  · rw [Formula.linear, ha.linear, hb.linear, hb.hasTerms]
    unfold Quantity.hasTerms
    rw [hdivisor]
    rfl
  · rw [hconst, hdivisor, Bool.and_true]
  · rw [Expression.valueUnder_over? h, ha.valueUnder, hb.valueUnder]
    rfl

end Denotes

/-- What a formula evaluates to. -/
theorem denotes_of_eval (h : f.eval = some q) : f.Denotes q := by
  induction f generalizing q with
  | quantity p =>
      obtain rfl := Option.some.inj h
      exact .quantity p
  | sum a b iha ihb =>
      obtain ⟨x, hx, h⟩ := Option.bind_eq_some_iff.1 h
      obtain ⟨y, hy, ⟨⟩⟩ := Option.bind_eq_some_iff.1 h
      exact (iha hx).sum (ihb hy)
  | difference a b iha ihb =>
      obtain ⟨x, hx, h⟩ := Option.bind_eq_some_iff.1 h
      obtain ⟨y, hy, ⟨⟩⟩ := Option.bind_eq_some_iff.1 h
      exact (iha hx).difference (ihb hy)
  | product a b iha ihb =>
      obtain ⟨x, hx, h⟩ := Option.bind_eq_some_iff.1 h
      obtain ⟨y, hy, h⟩ := Option.bind_eq_some_iff.1 h
      exact (iha hx).product (ihb hy) h
  | quotient a b iha ihb =>
      obtain ⟨x, hx, h⟩ := Option.bind_eq_some_iff.1 h
      obtain ⟨y, hy, h⟩ := Option.bind_eq_some_iff.1 h
      exact (iha hx).quotient (ihb hy) h
  | negation a iha =>
      obtain ⟨x, hx, ⟨⟩⟩ := Option.bind_eq_some_iff.1 h
      exact (iha hx).negation
  | expanded a iha =>
      obtain ⟨x, hx, ⟨⟩⟩ := Option.bind_eq_some_iff.1 h
      exact (iha hx).expanded
  | reduced a iha =>
      obtain ⟨x, hx, ⟨⟩⟩ := Option.bind_eq_some_iff.1 h
      exact (iha hx).reduced
  | scaled a k iha =>
      obtain ⟨x, hx, ⟨⟩⟩ := Option.bind_eq_some_iff.1 h
      exact (iha hx).scaled k
  | expressionProduct a b iha ihb =>
      obtain ⟨x, hx, h⟩ := Option.bind_eq_some_iff.1 h
      obtain ⟨y, hy, h⟩ := Option.bind_eq_some_iff.1 h
      obtain ⟨e, he, ⟨⟩⟩ := Option.bind_eq_some_iff.1 h
      exact (iha hx).expressionProduct (ihb hy) he
  | expressionQuotient a b iha ihb =>
      obtain ⟨x, hx, h⟩ := Option.bind_eq_some_iff.1 h
      obtain ⟨y, hy, h⟩ := Option.bind_eq_some_iff.1 h
      obtain ⟨e, he, ⟨⟩⟩ := Option.bind_eq_some_iff.1 h
      exact (iha hx).expressionQuotient (ihb hy) he

/-- The product of two expressions fails if both have terms, and else not. -/
theorem eval_expressionProduct_eq_none_iff (hx : a.eval = some x)
    (hy : b.eval = some y) :
    (expressionProduct a b).eval = none
      ↔ x.toExpression.terms ≠ [] ∧ y.toExpression.terms ≠ [] := by
  have hstep : (expressionProduct a b).eval
      = (x.toExpression.times? y.toExpression).map .expression := by
    rw [eval, hx, hy]
    exact Option.map_eq_bind.symm
  rw [hstep, Option.map_eq_none_iff, Expression.times?_eq_none_iff]
  unfold Expression.isConstant
  rw [List.isEmpty_eq_false_iff, List.isEmpty_eq_false_iff]

/-- The quotient of two expressions fails if the divisor has terms, and
else not. -/
theorem eval_expressionQuotient_eq_none_iff (hx : a.eval = some x)
    (hy : b.eval = some y) :
    (expressionQuotient a b).eval = none
      ↔ y.toExpression.terms ≠ [] := by
  have hstep : (expressionQuotient a b).eval
      = (x.toExpression.over? y.toExpression).map .expression := by
    rw [eval, hx, hy]
    exact Option.map_eq_bind.symm
  rw [hstep, Option.map_eq_none_iff, Expression.over?_eq_none_iff]
  unfold Expression.isConstant
  rw [List.isEmpty_eq_false_iff]

/-- The operands of a formula with two of them have values, of the kinds
that the operator has been found to take. -/
private theorem exists_operands {κ : Quantity.Kind}
    {kinds : Quantity.Kind → Quantity.Kind → Option Quantity.Kind}
    (hkind : (a.kind?.bind fun κa => b.kind?.bind (kinds κa)) = some κ)
    (hlinear : (a.linear && b.linear) = true)
    (iha : ∀ {κ}, a.kind? = some κ → a.linear = true →
      ∃ x, a.eval = some x)
    (ihb : ∀ {κ}, b.kind? = some κ → b.linear = true →
      ∃ y, b.eval = some y) :
    ∃ x y, a.eval = some x ∧ b.eval = some y
      ∧ kinds x.kind y.kind = some κ := by
  obtain ⟨κa, hκa, h⟩ := Option.bind_eq_some_iff.1 hkind
  obtain ⟨κb, hκb, h⟩ := Option.bind_eq_some_iff.1 h
  obtain ⟨ha, hb⟩ := Bool.and_eq_true_iff.1 hlinear
  obtain ⟨x, hx⟩ := iha hκa ha
  obtain ⟨y, hy⟩ := ihb hκb hb
  obtain rfl := (denotes_of_eval hx).kind_eq hκa
  obtain rfl := (denotes_of_eval hy).kind_eq hκb
  exact ⟨x, y, hx, hy, h⟩

/-- A formula has a value as soon as its operators take the kinds of their
operands and all products and quotients are linear. -/
theorem exists_eval {κ : Quantity.Kind} (hkind : f.kind? = some κ)
    (hlinear : f.linear = true) :
    ∃ q, f.eval = some q := by
  induction f generalizing κ with
  | quantity q => exact ⟨q, rfl⟩
  | sum a b iha ihb | difference a b iha ihb =>
      obtain ⟨x, y, hx, hy, -⟩ := exists_operands hkind hlinear iha ihb
      rw [eval, hx, hy]
      exact ⟨_, rfl⟩
  | product a b iha ihb =>
      obtain ⟨x, y, hx, hy, h⟩ := exists_operands hkind hlinear iha ihb
      rw [← Quantity.kind_times?] at h
      obtain ⟨q, hq, -⟩ := Option.map_eq_some_iff.1 h
      rw [eval, hx, hy]
      exact ⟨q, hq⟩
  | quotient a b iha ihb =>
      obtain ⟨x, y, hx, hy, h⟩ := exists_operands hkind hlinear iha ihb
      rw [← Quantity.kind_over?] at h
      obtain ⟨q, hq, -⟩ := Option.map_eq_some_iff.1 h
      rw [eval, hx, hy]
      exact ⟨q, hq⟩
  | negation a iha | expanded a iha | reduced a iha | scaled a k iha =>
      obtain ⟨κa, hκa, -⟩ := Option.bind_eq_some_iff.1 hkind
      obtain ⟨x, hx⟩ := iha hκa hlinear
      rw [eval, hx]
      exact ⟨_, rfl⟩
  | expressionProduct a b iha ihb =>
      obtain ⟨hab, hfactor⟩ := Bool.and_eq_true_iff.1 hlinear
      obtain ⟨x, y, hx, hy, -⟩ := exists_operands hkind hab iha ihb
      refine Option.ne_none_iff_exists'.1 fun hnone => ?_
      obtain ⟨htx, hty⟩ :=
        (eval_expressionProduct_eq_none_iff hx hy).1 hnone
      rw [(denotes_of_eval hx).hasTerms, (denotes_of_eval hy).hasTerms,
        Quantity.hasTerms_iff.2 htx, Quantity.hasTerms_iff.2 hty] at hfactor
      cases hfactor
  | expressionQuotient a b iha ihb =>
      obtain ⟨hab, hdivisor⟩ := Bool.and_eq_true_iff.1 hlinear
      obtain ⟨x, y, hx, hy, -⟩ := exists_operands hkind hab iha ihb
      refine Option.ne_none_iff_exists'.1 fun hnone => ?_
      have hty := (eval_expressionQuotient_eq_none_iff hx hy).1 hnone
      rw [(denotes_of_eval hy).hasTerms,
        Quantity.hasTerms_iff.2 hty] at hdivisor
      cases hdivisor

/-- Which formulas have a value can be told without computing it. -/
theorem isSome_eval_iff :
    f.eval.isSome = true ↔ f.kind?.isSome = true ∧ f.linear = true := by
  rw [Option.isSome_iff_exists, Option.isSome_iff_exists]
  constructor
  · rintro ⟨q, hq⟩
    exact ⟨⟨q.kind, (denotes_of_eval hq).kind⟩, (denotes_of_eval hq).linear⟩
  · rintro ⟨⟨κ, hκ⟩, hlinear⟩
    exact exists_eval hκ hlinear

/-- As an expression, a formula is worth what it means. -/
theorem valueUnder_toExpression? (h : f.toExpression? = some e)
    (v : Variable → Rat) :
    e.valueUnder v = f.meaning v := by
  obtain ⟨q, hq, rfl⟩ := Option.map_eq_some_iff.1 h
  exact (denotes_of_eval hq).valueUnder v

end Formula

-- ========================================================= constraints

/-- The first number stands in the relation to the second. -/
def Relation.Relates (r : Relation) (a b : Rat) : Prop :=
  match r with
  | lessOrEqual => a ≤ b
  | equal => a = b
  | greaterOrEqual => b ≤ a

/-- A difference compares with zero as the numbers do with each other. -/
theorem Relation.holds_sub_iff (r : Relation) (a b : Rat) :
    r.Holds (a - b) ↔ r.Relates a b := by
  cases r with
  | lessOrEqual => exact sub_nonpos
  | equal => exact sub_eq_zero
  | greaterOrEqual => exact sub_nonneg

namespace Constraint

/-- The second constraint is made from the first by changing strengths and
labels. -/
inductive Restates {α : Type} [Scalar α] (c : Constraint α) :
    Constraint α → Prop where
  | refl : c.Restates c
  | withStrength {d : Constraint α} (h : c.Restates d) (id : ℕ)
      (s : Strength α) : c.Restates (.withStrength id d s)
  | labeled {d : Constraint α} (h : c.Restates d) (id : ℕ)
      (label : String) : c.Restates (.labeled id d label)

/-- What a constraint says survives a change of its strength or label. -/
theorem Restates.eq {α : Type} [Scalar α] {c d : Constraint α}
    (h : c.Restates d) :
    d.expression = c.expression ∧ d.relation = c.relation := by
  induction h with
  | refl => exact ⟨rfl, rfl⟩
  | withStrength _ _ _ ih => exact ih
  | labeled _ _ _ ih => exact ih

/-- The constraint between two sides is on the difference of their
values. -/
theorem valueUnder_relate (id : ℕ) (lhs rhs : Expression Rat)
    (r : Relation) :
    (relate id lhs r rhs).expression.valueUnder v
      = lhs.valueUnder v - rhs.valueUnder v :=
  (Expression.valueUnder_reduce _).trans (Expression.valueUnder_minus ..)

end Constraint

-- ========================================================= all together

/-- Formulas mean arithmetic. Whatever a formula evaluates to is worth
what the formula means; it evaluates exactly if its operators fit its
operands and it is linear, and a product or quotient of expressions fails
for terms in both factors or in the divisor, and for nothing else. The
constraint between two formulas, at any strength and under any label,
holds a reduced expression that is worth their difference, and is
satisfied exactly if the relation holds between what they mean. -/
theorem formulas_mean_arithmetic (v : Variable → Rat) :
    (∀ (f : Formula Rat) (q : Quantity Rat), f.eval = some q →
      q.valueUnder v = f.meaning v)
    ∧ (∀ f : Formula Rat, f.eval.isSome = true
        ↔ f.kind?.isSome = true ∧ f.linear = true)
    ∧ (∀ (a b : Formula Rat) (x y : Quantity Rat),
        a.eval = some x → b.eval = some y →
        ((Formula.expressionProduct a b).eval = none
          ↔ x.toExpression.terms ≠ [] ∧ y.toExpression.terms ≠ [])
        ∧ ((Formula.expressionQuotient a b).eval = none
          ↔ y.toExpression.terms ≠ []))
    ∧ ∀ (l r : Formula Rat) (x y : Expression Rat),
        l.toExpression? = some x → r.toExpression? = some y →
        ∀ (id : ℕ) (rel : Relation) (c : Constraint Rat),
          (Constraint.relate id x rel y).Restates c →
          c.expression.vars.Nodup
          ∧ c.expression.reduce = c.expression
          ∧ c.expression.valueUnder v = l.meaning v - r.meaning v
          ∧ (c.Holds v ↔ rel.Relates (l.meaning v) (r.meaning v)) := by
  refine ⟨fun f q hq => ?_, fun f => Formula.isSome_eval_iff,
    fun a b x y hx hy =>
      ⟨Formula.eval_expressionProduct_eq_none_iff hx hy,
        Formula.eval_expressionQuotient_eq_none_iff hx hy⟩,
    fun l r x y hl hr id rel c hc => ?_⟩
  · rw [Quantity.valueUnder_eq_meaning]
    exact ((Formula.denotes_of_eval hq).meaning v).symm
  · obtain ⟨hexpr, hrel⟩ := hc.eq
    have hvalue : c.expression.valueUnder v = l.meaning v - r.meaning v := by
      rw [hexpr, Constraint.valueUnder_relate,
        Formula.valueUnder_toExpression? hl,
        Formula.valueUnder_toExpression? hr]
    refine ⟨?_, ?_, hvalue, ?_⟩
    · rw [hexpr]
      exact Expression.nodup_vars_reduce _
    · rw [hexpr]
      exact Expression.reduce_reduce _
    · unfold Constraint.Holds
      rw [hvalue, hrel]
      exact rel.holds_sub_iff ..

/-- The formula `2 * x + (3 - x)`, to be reduced. -/
private def raised (x : Variable) : Formula Rat :=
  .reduced (.sum (.product (.quantity (.number 2)) (.quantity (.var x)))
    (.difference (.quantity (.number 3)) (.quantity (.var x))))

/-- The formula has a value, the constraint that it is at most five holds
where `x` is two, also at another strength, and its square fails. -/
theorem raised_means_arithmetic :
    ∃ q, (raised ⟨0, none⟩).eval = some q
      ∧ (Formula.expressionProduct (raised ⟨0, none⟩)
          (raised ⟨0, none⟩)).eval = none
      ∧ (Constraint.withStrength 1 (.relate 0 q.toExpression .lessOrEqual
          (.ofConstant 5)) .weak).Holds fun _ => 2 := by
  obtain ⟨-, hsome, hfail, hholds⟩ := formulas_mean_arithmetic fun _ => 2
  obtain ⟨q, hq⟩ := Option.isSome_iff_exists.1
    ((hsome (raised ⟨0, none⟩)).2 (by decide +kernel))
  refine ⟨q, hq, ((hfail _ _ q q hq hq).1).2 ?_, ?_⟩
  · obtain rfl := Option.some.inj hq
    exact ⟨by decide +kernel, by decide +kernel⟩
  · have hfive : (Formula.quantity (.number 5)).toExpression?
        = some (.ofConstant (5 : Rat)) := rfl
    refine (hholds (raised ⟨0, none⟩) (.quantity (.number 5)) _ _
      (by rw [Formula.toExpression?, hq]; rfl) hfive 0 .lessOrEqual _
      (.withStrength .refl 1 .weak)).2.2.2.2 ?_
    show (_ : Rat) ≤ _
    decide +kernel

end LinearConstraints
