/-
The algebra of rows in exact arithmetic.

A row has a value under every valuation of the symbols, and the value
determines its constant and its coefficients: the constant is the value
at zero, and a coefficient is what the value gains when one symbol goes
from zero to one. So each operation is described once, by what it does to
the value, and what it does to coefficients follows.

# Stored cells

A row is `Reduced` if none of its stored coefficients is zero. Every
operation keeps rows reduced, and in a reduced row a symbol is mentioned
exactly if its coefficient is not zero, so the searches over stored cells
find what the coefficients say.

Main statements: `value_substitute`, `value_of_isolate?`,
`value_of_resolve?`, and `Reduced` under every operation.
-/
import LinearConstraints.Proofs.TableSum
import LinearConstraints.Tableau.Row

namespace LinearConstraints.Row

-- ================================================ values, coefficients

theorem value_eq (r : Row Rat) (v : Symbol → Rat) :
    r.value v = r.constant + r.cells.sum fun s k => k * v s := rfl

theorem coefficient_of_get? {r : Row Rat} {s : Symbol} {k : Rat}
    (h : r.cells.get? s = some k) : r.coefficient s = k := by
  unfold coefficient
  rw [h]
  rfl

theorem coefficient_of_none {r : Row Rat} {s : Symbol}
    (h : r.cells.get? s = none) : r.coefficient s = 0 := by
  unfold coefficient
  rw [h]
  rfl

/-- A coefficient other than zero is stored. -/
theorem get?_of_coefficient_ne {r : Row Rat} {s : Symbol}
    (h : r.coefficient s ≠ 0) :
    r.cells.get? s = some (r.coefficient s) := by
  cases hs : r.cells.get? s with
  | none => exact absurd (coefficient_of_none hs) h
  | some k => rw [coefficient_of_get? hs]

/-- What the cell of a symbol adds to the value. -/
private theorem elim_cell (r : Row Rat) (s : Symbol) (v : Symbol → Rat) :
    (r.cells.get? s).elim 0 (fun k => k * v s) = r.coefficient s * v s := by
  cases hs : r.cells.get? s with
  | none => rw [coefficient_of_none hs, zero_mul]; rfl
  | some k => rw [coefficient_of_get? hs]; rfl

/-- The valuation under which one symbol is one and all others zero. -/
def unit (x : Symbol) : Symbol → Rat := fun s => if s = x then 1 else 0

@[simp] theorem unit_self (x : Symbol) : unit x x = 1 := if_pos rfl

theorem unit_of_ne {x s : Symbol} (h : s ≠ x) : unit x s = 0 := if_neg h

/-- Raising one symbol is adding units of it. -/
theorem update_add (v : Symbol → Rat) (x : Symbol) (a : Rat)
    (s : Symbol) :
    Function.update v x (v x + a) s = v s + a * unit x s := by
  by_cases hs : s = x
  · rw [hs, Function.update_self, unit_self, mul_one]
  · rw [Function.update_of_ne hs, unit_of_ne hs, mul_zero, add_zero]

/-- A coefficient is what the value gains from one unit of the symbol. -/
theorem value_unit (r : Row Rat) (x : Symbol) :
    r.value (unit x) = r.constant + r.coefficient x := by
  rw [value_eq, Table.sum_single _ x, elim_cell, unit_self, mul_one]
  intro s k _ hs
  rw [unit_of_ne hs, mul_zero]

/-- The value depends on the symbols with a coefficient only. -/
theorem value_congr {r : Row Rat} {v w : Symbol → Rat}
    (h : ∀ x, r.coefficient x ≠ 0 → v x = w x) : r.value v = r.value w := by
  rw [value_eq, value_eq]
  congr 1
  refine Table.sum_congr fun s k hs => ?_
  by_cases hk : k = 0
  · rw [hk, zero_mul, zero_mul]
  · rw [h s (by rwa [coefficient_of_get? hs])]

/-- Cells that contribute nothing leave the constant. -/
theorem value_eq_constant {r : Row Rat} {v : Symbol → Rat}
    (h : ∀ x, r.coefficient x * v x = 0) : r.value v = r.constant := by
  rw [value_eq, Table.sum_eq_zero, add_zero]
  intro s k hs
  rw [← coefficient_of_get? hs]
  exact h s

/-- Cells that contribute nothing negative leave at least the constant. -/
theorem constant_le_value {r : Row Rat} {v : Symbol → Rat}
    (h : ∀ x, 0 ≤ r.coefficient x * v x) : r.constant ≤ r.value v := by
  have hsum : (r.cells.sum fun _ _ => (0 : Rat))
      ≤ r.cells.sum fun s k => k * v s := by
    refine Table.sum_le_sum fun s k hs => ?_
    rw [← coefficient_of_get? hs]
    exact h s
  rw [Table.sum_eq_zero fun _ _ _ => rfl] at hsum
  rw [value_eq]
  linarith

/-- A larger valuation of what counts positively is a larger value. -/
theorem value_le_value {r : Row Rat} {v w : Symbol → Rat}
    (h : ∀ x, r.coefficient x * v x ≤ r.coefficient x * w x) :
    r.value v ≤ r.value w := by
  rw [value_eq, value_eq]
  have : (r.cells.sum fun s k => k * v s)
      ≤ r.cells.sum fun s k => k * w s := by
    refine Table.sum_le_sum fun s k hs => ?_
    rw [← coefficient_of_get? hs]
    exact h s
  linarith

/-- Adding to one symbol adds its coefficient as often. -/
theorem value_add_unit (r : Row Rat) (v : Symbol → Rat) (x : Symbol)
    (a : Rat) :
    r.value (fun s => v s + unit x s * a)
      = r.value v + r.coefficient x * a := by
  have hx := value_unit r x
  rw [value_eq] at hx ⊢
  rw [value_eq, ← add_left_cancel hx, ← Table.sum_mul]
  rw [add_assoc, ← Table.sum_add]
  congr 2
  funext s k
  ring

/-- Setting one symbol moves the value by its coefficient. -/
theorem value_update (r : Row Rat) (v : Symbol → Rat) (x : Symbol)
    (a : Rat) :
    r.value (Function.update v x a)
      = r.value v + r.coefficient x * (a - v x) := by
  rw [← value_add_unit]
  congr 1
  funext s
  by_cases hs : s = x
  · subst hs
    rw [Function.update_self, unit_self]
    ring
  · rw [Function.update_of_ne hs, unit_of_ne hs]
    ring

/-- Setting a symbol without coefficient does not move the value. -/
theorem value_update_of_eq_zero {r : Row Rat} {x : Symbol}
    (h : r.coefficient x = 0) (v : Symbol → Rat) (a : Rat) :
    r.value (Function.update v x a) = r.value v := by
  rw [value_update, h, zero_mul, add_zero]

/-- What is added to the value of a row, zero at zero, is added to its
coefficients unit by unit. -/
theorem coefficient_of_value {r d : Row Rat} {φ : (Symbol → Rat) → Rat}
    (h : ∀ v, d.value v = r.value v + φ v) (h0 : φ (fun _ => 0) = 0) :
    d.constant = r.constant
      ∧ ∀ x, d.coefficient x = r.coefficient x + φ (unit x) := by
  have hconst : d.constant = r.constant := by
    have hz := h fun _ => 0
    rwa [value_eq_constant fun _ => mul_zero _,
      value_eq_constant fun _ => mul_zero _, h0, add_zero] at hz
  refine ⟨hconst, fun x => ?_⟩
  have hx := h (unit x)
  rw [value_unit, value_unit, hconst] at hx
  linarith

-- ========================================================= operations

@[simp] theorem value_ofConstant (k : Rat) (v : Symbol → Rat) :
    (ofConstant k).value v = k := add_zero k

@[simp] theorem coefficient_ofConstant (k : Rat) (x : Symbol) :
    (ofConstant k).coefficient x = 0 := rfl

theorem value_shift (r : Row Rat) (k : Rat) (v : Symbol → Rat) :
    (r.shift k).value v = r.value v + k := by
  have : (r.shift k).value v
      = (r.constant + k) + r.cells.sum fun s c => c * v s := rfl
  rw [this, value_eq]
  ring

@[simp] theorem constant_shift (r : Row Rat) (k : Rat) :
    (r.shift k).constant = r.constant + k := rfl

theorem value_addCell (r : Row Rat) (s : Symbol) (k : Rat)
    (v : Symbol → Rat) :
    (r.addCell s k).value v = r.value v + k * v s := by
  have hcells : (r.addCell s k).cells =
      if r.coefficient s + k = 0 then r.cells.erase s
      else r.cells.insert s (r.coefficient s + k) := by
    unfold addCell
    dsimp only
    by_cases hz : r.coefficient s + k = 0
    · rw [if_pos (Scalar.nearZero_iff.2 hz), if_pos hz]
    · rw [if_neg fun h => hz (Scalar.nearZero_iff.1 h), if_neg hz]
  rw [value_eq, value_eq, constant_addCell, hcells]
  have hcell := elim_cell r s v
  by_cases hz : r.coefficient s + k = 0
  · have hsum := r.cells.sum_erase s fun s k => k * v s
    rw [if_pos hz]
    rw [hcell] at hsum
    have hk : k = -r.coefficient s := by linarith
    rw [hk]
    linarith
  · have hsum := r.cells.sum_insert s (r.coefficient s + k)
      fun s k => k * v s
    rw [if_neg hz]
    rw [hcell] at hsum
    linarith

theorem coefficient_addCell (r : Row Rat) (s : Symbol) (k : Rat)
    (x : Symbol) :
    (r.addCell s k).coefficient x = r.coefficient x + k * unit x s := by
  have h := value_addCell r s k (unit x)
  rw [value_unit, value_unit, constant_addCell] at h
  linarith

theorem value_addRow (r other : Row Rat) (k : Rat) (v : Symbol → Rat) :
    (r.addRow other k).value v = r.value v + other.value v * k := by
  have key : ∀ (l : List (Symbol × Rat)) (acc : Row Rat),
      (l.foldl (fun acc c => acc.addCell c.1 (c.2 * k)) acc).value v
        = acc.value v + (l.map fun c => c.2 * v c.1).sum * k := by
    intro l
    induction l with
    | nil => intro acc; simp
    | cons c l ih =>
        intro acc
        rw [List.foldl_cons, ih, value_addCell, List.map_cons,
          List.sum_cons]
        ring
  have hstart := value_shift r (other.constant * k) v
  have hfold := key other.cells.entries (r.shift (other.constant * k))
  have hother : (other.cells.entries.map fun c => c.2 * v c.1).sum
      = other.value v - other.constant := by
    rw [value_eq]
    unfold Table.sum
    ring
  rw [hstart, hother] at hfold
  calc (r.addRow other k).value v
      = r.value v + other.constant * k
          + (other.value v - other.constant) * k := hfold
    _ = r.value v + other.value v * k := by ring

theorem coefficient_addRow (r other : Row Rat) (k : Rat) (x : Symbol) :
    (r.addRow other k).coefficient x
      = r.coefficient x + other.coefficient x * k := by
  have h := value_addRow r other k (unit x)
  have hc : (r.addRow other k).constant
      = r.constant + other.constant * k := constant_addRow r other k
  rw [value_unit, value_unit, value_unit, hc] at h
  linarith

theorem value_discard (r : Row Rat) (s : Symbol) (v : Symbol → Rat) :
    (r.discard s).value v = r.value v - r.coefficient s * v s := by
  have hsum := r.cells.sum_erase s fun s k => k * v s
  rw [elim_cell] at hsum
  rw [value_eq, value_eq]
  show r.constant + (r.cells.erase s).sum _ = _
  linarith

/-- Discarding a symbol is setting it to zero. -/
theorem value_discard_eq_update (r : Row Rat) (s : Symbol)
    (v : Symbol → Rat) :
    (r.discard s).value v = r.value (Function.update v s 0) := by
  rw [value_discard, value_update]
  ring

theorem coefficient_discard (r : Row Rat) (s x : Symbol) :
    (r.discard s).coefficient x
      = if s = x then 0 else r.coefficient x := by
  unfold coefficient
  rw [get?_discard]
  split <;> rfl

theorem value_scaled (r : Row Rat) (k : Rat) (v : Symbol → Rat) :
    (r.scaled k).value v = r.value v * k := by
  rw [value_eq, value_eq]
  show r.constant * k + (r.cells.map fun _ c => c * k).sum _ = _
  rw [Table.sum_map, add_mul, ← Table.sum_mul]
  congr 2
  funext s c
  ring

theorem coefficient_scaled (r : Row Rat) (k : Rat) (x : Symbol) :
    (r.scaled k).coefficient x = r.coefficient x * k := by
  have h := value_scaled r k (unit x)
  have hc : (r.scaled k).constant = r.constant * k := rfl
  rw [value_unit, value_unit, hc] at h
  linarith

theorem value_negated (r : Row Rat) (v : Symbol → Rat) :
    r.negated.value v = -r.value v := by
  rw [value_eq, value_eq]
  show -r.constant + (r.cells.map fun _ c => -c).sum _ = _
  have hneg : (fun (s : Symbol) (c : Rat) => -c * v s)
      = fun s c => c * v s * (-1) := by
    funext s c
    ring
  rw [Table.sum_map, hneg, Table.sum_mul]
  ring

theorem coefficient_negated (r : Row Rat) (x : Symbol) :
    r.negated.coefficient x = -r.coefficient x := by
  have h := value_negated r (unit x)
  have hc : r.negated.constant = -r.constant := rfl
  rw [value_unit, value_unit, hc] at h
  linarith

-- ========================================================== solving

/-- A symbol with a coefficient can be solved for. -/
theorem isolate?_of_coefficient_ne {r : Row Rat} {s : Symbol}
    (h : r.coefficient s ≠ 0) :
    r.isolate? s
      = some ((r.discard s).scaled (-1 / r.coefficient s)) := by
  unfold isolate?
  rw [get?_of_coefficient_ne h]

/-- What a solved row is worth: the row is zero exactly if the symbol has
this value. -/
theorem value_of_isolate? {r d : Row Rat} {s : Symbol}
    (ha : r.coefficient s ≠ 0) (h : r.isolate? s = some d)
    (v : Symbol → Rat) : d.value v = v s - r.value v / r.coefficient s := by
  rw [isolate?_of_coefficient_ne ha] at h
  injection h with h
  rw [← h, value_scaled, value_discard]
  field_simp
  ring

theorem constant_of_isolate? {r d : Row Rat} {s : Symbol}
    (ha : r.coefficient s ≠ 0) (h : r.isolate? s = some d) :
    d.constant = -r.constant / r.coefficient s := by
  rw [isolate?_of_coefficient_ne ha] at h
  injection h with h
  rw [← h]
  show r.constant * (-1 / r.coefficient s) = _
  ring

theorem coefficient_of_isolate? {r d : Row Rat} {s : Symbol}
    (ha : r.coefficient s ≠ 0) (h : r.isolate? s = some d) (x : Symbol) :
    d.coefficient x
      = if s = x then 0 else -r.coefficient x / r.coefficient s := by
  rw [isolate?_of_coefficient_ne ha] at h
  injection h with h
  rw [← h, coefficient_scaled, coefficient_discard]
  split
  · rw [zero_mul]
  · ring

-- The three statements below are about the definition of `entering` that
-- the definition of `leaving` turns into, with `a` the old coefficient.

section Resolve

variable {r d : Row Rat} {leaving entering : Symbol}

theorem coefficient_entering (hne : leaving ≠ entering) :
    (r.addCell leaving (-1)).coefficient entering
      = r.coefficient entering := by
  rw [coefficient_addCell, unit_of_ne hne, mul_zero, add_zero]

/-- `leaving` has the value of the old row exactly if `entering` has that
of the new one. -/
theorem value_of_resolve? (hne : leaving ≠ entering)
    (ha : r.coefficient entering ≠ 0)
    (h : r.resolve? leaving entering = some d) (v : Symbol → Rat) :
    d.value v
      = v entering - (r.value v - v leaving) / r.coefficient entering := by
  have ha' := coefficient_entering (r := r) hne
  have h₁ := value_of_isolate? (by rwa [ha']) h v
  have h₂ := value_addCell r leaving (-1) v
  rw [h₁, ha']
  show v entering - (r.addCell leaving (-1)).value v / _ = _
  rw [h₂]
  ring

theorem constant_of_resolve? (hne : leaving ≠ entering)
    (ha : r.coefficient entering ≠ 0)
    (h : r.resolve? leaving entering = some d) :
    d.constant = -r.constant / r.coefficient entering := by
  have ha' := coefficient_entering (r := r) hne
  have h₁ := constant_of_isolate? (by rwa [ha']) h
  rw [h₁, ha']
  rfl

theorem coefficient_of_resolve? (hne : leaving ≠ entering)
    (ha : r.coefficient entering ≠ 0)
    (h : r.resolve? leaving entering = some d) (x : Symbol) :
    d.coefficient x = if entering = x then 0
      else (unit x leaving - r.coefficient x) / r.coefficient entering := by
  have ha' := coefficient_entering (r := r) hne
  have h₁ := coefficient_of_isolate? (by rwa [ha']) h x
  have h₂ := coefficient_addCell r leaving (-1) x
  rw [h₁, ha']
  split
  · rfl
  · change -(r.addCell leaving (-1)).coefficient x / _ = _
    rw [h₂]
    ring

end Resolve

-- ======================================================= substitution

/-- Substituting a definition adds the coefficient times what the
definition differs from the symbol. -/
theorem value_substitute (r d : Row Rat) (s : Symbol) (v : Symbol → Rat) :
    (r.substitute s d).value v
      = r.value v + r.coefficient s * (d.value v - v s) := by
  unfold substitute
  cases hs : r.cells.get? s with
  | none => rw [coefficient_of_none hs]; ring
  | some a =>
      have ha := coefficient_of_get? hs
      dsimp only
      rw [value_addRow, value_discard, ha]
      ring

theorem constant_substitute (r d : Row Rat) (s : Symbol) :
    (r.substitute s d).constant
      = r.constant + r.coefficient s * d.constant := by
  have h := value_substitute r d s fun _ => 0
  rwa [value_eq_constant fun _ => mul_zero _,
    value_eq_constant fun _ => mul_zero _,
    value_eq_constant fun _ => mul_zero _, sub_zero] at h

theorem coefficient_substitute (r d : Row Rat) (s x : Symbol) :
    (r.substitute s d).coefficient x
      = r.coefficient x
        + r.coefficient s * (d.coefficient x - unit x s) := by
  have h := value_substitute r d s (unit x)
  rw [value_unit, value_unit, value_unit, constant_substitute] at h
  linarith

/-- Where the symbol has the value of its definition, substitution keeps
the value of every row. -/
theorem value_substitute_of_eq (r : Row Rat) {d : Row Rat} {s : Symbol}
    {v : Symbol → Rat} (h : v s = d.value v) :
    (r.substitute s d).value v = r.value v := by
  rw [value_substitute, h, sub_self, mul_zero, add_zero]

-- ======================================================= reduced rows

/-- No stored coefficient is zero. -/
def Reduced (r : Row Rat) : Prop :=
  ∀ s k, r.cells.get? s = some k → k ≠ 0

/-- A reduced row mentions the symbols with a coefficient. -/
theorem Reduced.mem_symbols_iff {r : Row Rat} (h : r.Reduced)
    {s : Symbol} : s ∈ r.symbols ↔ r.coefficient s ≠ 0 := by
  unfold symbols
  rw [← Table.contains_iff]
  unfold Table.contains
  constructor
  · intro hs
    obtain ⟨k, hk⟩ := Option.isSome_iff_exists.1 hs
    rw [coefficient_of_get? hk]
    exact h s k hk
  · intro hs
    rw [get?_of_coefficient_ne hs]
    rfl

theorem reduced_ofConstant (k : Rat) : (ofConstant k).Reduced := by
  intro s k' h
  cases h

theorem Reduced.shift {r : Row Rat} (h : r.Reduced) (k : Rat) :
    (r.shift k).Reduced := h

theorem Reduced.addCell {r : Row Rat} (h : r.Reduced) (s : Symbol)
    (k : Rat) : (r.addCell s k).Reduced := by
  intro x c hc
  rw [get?_addCell] at hc
  split at hc
  · split at hc
    · cases hc
    case isFalse hz =>
      injection hc with hc
      intro h0
      exact hz (Scalar.nearZero_iff.2 (hc.trans h0))
  · exact h x c hc

theorem Reduced.addRow {r : Row Rat} (h : r.Reduced) (other : Row Rat)
    (k : Rat) : (r.addRow other k).Reduced := by
  have key : ∀ (l : List (Symbol × Rat)) (acc : Row Rat), acc.Reduced →
      (l.foldl (fun acc c => acc.addCell c.1 (c.2 * k)) acc).Reduced := by
    intro l
    induction l with
    | nil => intro acc hacc; exact hacc
    | cons c l ih =>
        intro acc hacc
        rw [List.foldl_cons]
        exact ih _ (hacc.addCell c.1 (c.2 * k))
  exact key _ _ (h.shift (other.constant * k))

theorem Reduced.discard {r : Row Rat} (h : r.Reduced) (s : Symbol) :
    (r.discard s).Reduced := by
  intro x c hc
  rw [get?_discard] at hc
  split at hc
  · cases hc
  · exact h x c hc

theorem Reduced.scaled {r : Row Rat} (h : r.Reduced) {k : Rat}
    (hk : k ≠ 0) : (r.scaled k).Reduced := by
  intro x c hc
  rw [get?_scaled] at hc
  obtain ⟨c', hc', rfl⟩ := Option.map_eq_some_iff.1 hc
  exact mul_ne_zero (h x c' hc') hk

theorem Reduced.negated {r : Row Rat} (h : r.Reduced) :
    r.negated.Reduced := by
  intro x c hc
  rw [get?_negated] at hc
  obtain ⟨c', hc', rfl⟩ := Option.map_eq_some_iff.1 hc
  exact neg_ne_zero.2 (h x c' hc')

theorem Reduced.isolate? {r d : Row Rat} (h : r.Reduced) {s : Symbol}
    (hd : r.isolate? s = some d) : d.Reduced := by
  unfold Row.isolate? at hd
  split at hd
  · cases hd
  case h_2 a ha =>
    injection hd with hd
    rw [← hd]
    exact (h.discard s).scaled
      (div_ne_zero (neg_ne_zero.2 one_ne_zero) (h s a ha))

theorem Reduced.resolve? {r d : Row Rat} (h : r.Reduced)
    {leaving entering : Symbol}
    (hd : r.resolve? leaving entering = some d) : d.Reduced :=
  (h.addCell leaving (-1)).isolate? hd

theorem Reduced.substitute {r : Row Rat} (h : r.Reduced) (s : Symbol)
    (d : Row Rat) : (r.substitute s d).Reduced := by
  unfold Row.substitute
  split
  · exact h
  · exact (h.discard s).addRow d _

end LinearConstraints.Row
