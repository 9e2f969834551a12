/-
Retargeting: what moving the target of an edit constraint does.

Wherever the constants move, the solutions move with them along one
symbol: they are the old ones with the marker lowered by the step, or with
the companion raised by it (`Shifts`). No coefficient changes, so the
objective stays lowest, and rows that turn negative are put on the stack.

# A proper solution remains

The marker and the companion occur in their constraint's equation only,
as a difference. So from a proper solution before, a proper solution after
is made by letting one of the two take up the new difference and the other
be zero.

Main statements: `shifts_of_moveTarget`, `Shifts.solves`,
`Shifts.pending` and `exists_proper_of_moveTarget`.
-/
import LinearConstraints.Proofs.DualSimplex
import LinearConstraints.Tableau.Target

namespace LinearConstraints.Tableau

open Function (update)

variable {t t' : Tableau Rat}

/-- The second tableau is the first with all solutions lowered by `k` at
one symbol: the row of the symbol falls by `k`, and a row that mentions it
moves by `k` times its coefficient. -/
structure Shifts (t : Tableau Rat) (x : Symbol) (k : Rat)
    (t' : Tableau Rat) : Prop where
  rows : ∀ b, t'.rows.get? b = (t.rows.get? b).map fun r =>
    r.shift (k * (r.coefficient x - Row.unit x b))
  objective : t'.objective = t.objective
  auxiliary : t'.auxiliary = t.auxiliary
  stack : ∀ {b}, b ∈ t'.infeasible →
    b ∈ t.infeasible ∨ b.isExternal = false
  waiting : ∀ {b r}, t'.rows.get? b = some r → b.isExternal = false →
    r.constant < 0 → b ∈ t'.infeasible ∨ t.rows.get? b = some r

namespace Shifts

variable {x : Symbol} {k : Rat}

theorem of_row (h : t.Shifts x k t') {b : Symbol} {r' : Row Rat}
    (hr : t'.rows.get? b = some r') :
    ∃ r, t.rows.get? b = some r
      ∧ r' = r.shift (k * (r.coefficient x - Row.unit x b)) := by
  rw [h.rows] at hr
  obtain ⟨r, hr, he⟩ := Option.map_eq_some_iff.1 hr
  exact ⟨r, hr, he.symm⟩

/-- Each form is a form from before, up to its constant. -/
theorem of_form (h : t.Shifts x k t') {r' : Row Rat}
    (hr : t'.Form r') : ∃ r a, t.Form r ∧ r' = r.shift a := by
  have hzero : ∀ r : Row Rat, r = r.shift 0 := by
    intro r
    unfold Row.shift
    rw [add_zero]
  cases hr with
  | row hr =>
      obtain ⟨r, hr, he⟩ := h.of_row hr
      exact ⟨r, _, .row hr, he⟩
  | objective =>
      rw [h.objective]
      exact ⟨t.objective, 0, .objective, hzero _⟩
  | auxiliary ha =>
      rw [h.auxiliary] at ha
      exact ⟨r', 0, .auxiliary ha, hzero _⟩

theorem isBasic_iff (h : t.Shifts x k t') {b : Symbol} :
    t'.IsBasic b ↔ t.IsBasic b := by
  unfold IsBasic
  rw [h.rows]
  cases t.rows.get? b <;> simp

theorem canonical (h : t.Shifts x k t') (hc : t.Canonical) :
    t'.Canonical where
  reduced := by
    intro r' hr'
    obtain ⟨r, a, hr, rfl⟩ := h.of_form hr'
    exact (hc.reduced hr).shift a
  nonbasic := by
    intro r' hr' y hy
    obtain ⟨r, a, hr, rfl⟩ := h.of_form hr'
    have hzero := hc.nonbasic hr (h.isBasic_iff.1 hy)
    exact hzero

theorem separated (h : t.Shifts x k t') (hsep : t.Separated) :
    t'.Separated where
  rows := by
    intro b r' hr' hb
    obtain ⟨r, hr, rfl⟩ := h.of_row hr'
    have hint := hsep.rows hr hb
    exact hint
  objective := h.objective ▸ hsep.objective
  auxiliary := fun ha => hsep.auxiliary (h.auxiliary ▸ ha)
  stack := fun hb => (h.stack hb).elim hsep.stack id

theorem unused (h : t.Shifts x k t') {y : Symbol} (hy : t.Unused y) :
    t'.Unused y where
  not_basic := fun hb => hy.not_basic (h.isBasic_iff.1 hb)
  coefficient := by
    intro r' hr'
    obtain ⟨r, a, hr, rfl⟩ := h.of_form hr'
    have hzero := hy.coefficient hr
    exact hzero

/-- The solutions move along the symbol. -/
theorem solves (h : t.Shifts x k t') (v : Symbol → Rat) :
    t'.Solves v ↔ t.Solves (update v x (v x + k)) := by
  have hsame : ∀ (b : Symbol) (r : Row Rat), update v x (v x + k) b
      = r.value (update v x (v x + k))
      ↔ v b = (r.shift (k * (r.coefficient x - Row.unit x b))).value v := by
    intro b r
    rw [Row.update_add, Row.value_update, Row.value_shift]
    constructor
    · intro he
      linarith
    · intro he
      linarith
  constructor
  · intro hv b r hr
    exact (hsame b r).2 (hv b _ (by rw [h.rows, hr]; rfl))
  · intro hv b r' hr'
    obtain ⟨r, hr, rfl⟩ := h.of_row hr'
    exact (hsame b r).1 (hv b r hr)

/-- A symbol that is no dummy moves no row of an idle dummy. -/
theorem dummiesIdle (h : t.Shifts x k t') (hx : x.isDummy = false)
    (hd : t.DummiesIdle) : t'.DummiesIdle := by
  intro b r' hr' hb
  obtain ⟨r, hr, rfl⟩ := h.of_row hr'
  obtain ⟨hconst, hcells⟩ := hd b r hr hb
  have hbx : b ≠ x := Symbol.ne_of_test hb hx
  refine ⟨?_, hcells⟩
  rw [Row.constant_shift, hconst, hcells x hx, Row.unit_of_ne hbx]
  ring

/-- Out of a feasible tableau all that turns negative is put on the
stack. -/
theorem pending (h : t.Shifts x k t') (hf : t.Feasible) : t'.Pending := by
  intro b r hr hb hneg
  rcases h.waiting hr hb hneg with hmem | hold
  · exact hmem
  · exact absurd hneg (not_lt.2 (hf b r hold hb))

end Shifts

-- ===================================================== the two movements

/-- Moving the row of a basic symbol moves the solutions at the symbol. -/
theorem shifts_shiftRow (hc : t.Canonical) {x : Symbol} {r : Row Rat}
    (hr : t.rows.get? x = some r) (hx : x.isExternal = false) (k : Rat) :
    t.Shifts x (-k) (t.shiftRow x r k) := by
  have hrows : ∀ b, (t.shiftRow x r k).rows.get? b
      = if x = b then some (r.shift k) else t.rows.get? b :=
    fun b => Table.get?_insert t.rows x b (r.shift k)
  have hstack : (t.shiftRow x r k).infeasible
      = if (r.shift k).constant < 0 then x :: t.infeasible
        else t.infeasible := rfl
  refine ⟨fun b => ?_, rfl, rfl, fun {b} hb => ?_,
    fun {b r'} hr' hb hneg => ?_⟩
  · rw [hrows]
    split
    case isTrue hxb =>
      subst hxb
      rw [hr, Option.map_some, hc.nonbasic (.row hr) ⟨r, hr⟩,
        Row.unit_self]
      congr 2
      ring
    case isFalse hxb =>
      cases hb : t.rows.get? b with
      | none => rfl
      | some r' =>
          rw [Option.map_some, hc.nonbasic (.row hb) ⟨r, hr⟩,
            Row.unit_of_ne (Ne.symm hxb)]
          unfold Row.shift
          rw [sub_zero, mul_zero, add_zero]
  · rw [hstack] at hb
    split at hb
    · rcases List.mem_cons.1 hb with rfl | hb
      · exact Or.inr hx
      · exact Or.inl hb
    · exact Or.inl hb
  · rw [hrows] at hr'
    split at hr'
    case isTrue hxb =>
      obtain rfl := Option.some.inj hr'
      rw [hstack, if_pos hneg, ← hxb]
      exact Or.inl (List.mem_cons_self ..)
    · exact Or.inr hr'

private theorem get?_rows_shiftColumn (t : Tableau Rat) (x b : Symbol)
    (k : Rat) :
    (t.shiftColumn x k).rows.get? b
      = (t.rows.get? b).map fun r =>
          if !(r.coefficient x == 0) then r.shift (k * r.coefficient x)
          else r :=
  Table.get?_map _ t.rows b

/-- Moving a column puts the rows on the stack that mention the symbol and
have turned negative. -/
private theorem mem_infeasible_shiftColumn {x b : Symbol} {k : Rat} :
    b ∈ (t.shiftColumn x k).infeasible ↔
      (∃ r, (t.shiftColumn x k).rows.get? b = some r
        ∧ r.coefficient x ≠ 0 ∧ isNegative b r = true)
      ∨ b ∈ t.infeasible := by
  have hmem : b ∈ (t.shiftColumn x k).infeasible ↔
      b ∈ (((t.shiftColumn x k).rows.entries.filter fun e =>
        !(e.2.coefficient x == 0) && isNegative e.1 e.2).map
          Prod.fst).reverse ++ t.infeasible := Iff.rfl
  rw [hmem, List.mem_append, List.mem_reverse, Table.mem_keys_filter_iff]
  refine or_congr_left (exists_congr fun r => and_congr_right fun _ => ?_)
  rw [Bool.and_eq_true, Scalar.not_beq_zero_iff]

/-- Moving every row with a symbol outside the basis moves the solutions
at the symbol. -/
theorem shifts_shiftColumn {x : Symbol} (hx : ¬ t.IsBasic x) (k : Rat) :
    t.Shifts x k (t.shiftColumn x k) := by
  refine ⟨fun b => ?_, rfl, rfl, fun {b} hb => ?_,
    fun {b r'} hr' hb hneg => ?_⟩
  · rw [get?_rows_shiftColumn]
    cases hb : t.rows.get? b with
    | none => rfl
    | some r =>
        have hbx : b ≠ x := by
          intro heq
          subst heq
          exact hx ⟨r, hb⟩
        rw [Option.map_some, Option.map_some, Row.unit_of_ne hbx,
          sub_zero]
        by_cases h0 : r.coefficient x = 0
        · rw [if_neg fun h => Scalar.not_beq_zero_iff.1 h h0, h0]
          unfold Row.shift
          rw [mul_zero, add_zero]
        · rw [if_pos (Scalar.not_beq_zero_iff.2 h0)]
  · rcases mem_infeasible_shiftColumn.1 hb with ⟨r, -, -, hneg⟩ | hb
    · exact Or.inr (isNegative_iff.1 hneg).1
    · exact Or.inl hb
  · by_cases h0 : r'.coefficient x = 0
    · -- a row that does not mention the symbol has not moved
      rw [get?_rows_shiftColumn] at hr'
      obtain ⟨r, hr, rfl⟩ := Option.map_eq_some_iff.1 hr'
      have hr0 : r.coefficient x = 0 := by
        split at h0
        · exact h0
        · exact h0
      rw [if_neg fun h => Scalar.not_beq_zero_iff.1 h hr0]
      exact Or.inr hr
    · exact Or.inl (mem_infeasible_shiftColumn.2
        (Or.inl ⟨r', hr', h0, isNegative_iff.2 ⟨hb, hneg⟩⟩))

/-- Moving a target moves the solutions, at the marker or, the other way,
at the companion. -/
theorem shifts_of_moveTarget (hc : t.Canonical) {f : Footprint}
    (hm : f.marker.isExternal = false)
    (hcomp : ∀ x, f.companion = some x → x.isExternal = false)
    (k : Rat) :
    t.Shifts f.marker k (t.moveTarget f k)
      ∨ ∃ x, f.companion = some x ∧ t.Shifts x (-k) (t.moveTarget f k) := by
  generalize ht' : t.moveTarget f k = t'
  cases moveTarget_eq_iff.1 ht' with
  | marker row =>
      have h := shifts_shiftRow hc row hm (-k)
      rw [neg_neg] at h
      exact Or.inl h
  | companion _ second basic =>
      exact Or.inr ⟨_, second, shifts_shiftRow hc basic (hcomp _ second) k⟩
  | column row =>
      exact Or.inl (shifts_shiftColumn (not_isBasic_iff.2 row) k)

-- ==================================================== a proper solution

/-- A difference is one of two numbers that are not negative. -/
private theorem exists_parts (gap : Rat) :
    ∃ a b : Rat, 0 ≤ a ∧ 0 ≤ b ∧ a - b = gap := by
  rcases le_total 0 gap with h | h
  · exact ⟨gap, 0, h, le_refl _, sub_zero gap⟩
  · exact ⟨0, -gap, le_refl _, neg_nonneg.2 h, by ring⟩

/-- If the solutions of a tableau fix no more of two restricted symbols
than their difference, then there still is a proper solution after a
target has moved. -/
theorem exists_proper_of_moveTarget {m x : Symbol} {k : Rat}
    (hne : m ≠ x) (hm : m.isDummy = false) (hx : x.isDummy = false)
    (hpair : ∀ v a, t.Solves v →
      t.Solves (update (update v m (v m + a)) x (v x + a)))
    (hmove : t.Shifts m k t' ∨ t.Shifts x (-k) t')
    {v : Symbol → Rat} (hv : t.Solves v) (hp : Proper v) :
    ∃ w, t'.Solves w ∧ Proper w := by
  obtain ⟨p, q, hp0, hq0, hpq⟩ := exists_parts (v m - v x - k)
  have hwm : update (update v m p) x q m = p := by
    rw [Function.update_of_ne hne, Function.update_self]
  have hwx : update (update v m p) x q x = q := Function.update_self ..
  have hw : ∀ y, y ≠ m → y ≠ x → update (update v m p) x q y = v y := by
    intro y hym hyx
    rw [Function.update_of_ne hyx, Function.update_of_ne hym]
  -- whatever is off by one number at both symbols is a solution too
  have hsolves : ∀ u a, u m = v m + a → u x = v x + a →
      (∀ y, y ≠ m → y ≠ x → u y = v y) → t.Solves u := by
    intro u a hum hux hu
    have heq : u = update (update v m (v m + a)) x (v x + a) := by
      funext y
      by_cases hyx : y = x
      · rw [hyx, hux, Function.update_self]
      · rw [Function.update_of_ne hyx]
        by_cases hym : y = m
        · rw [hym, hum, Function.update_self]
        · rw [hu y hym hyx, Function.update_of_ne hym]
    rw [heq]
    exact hpair v a hv
  refine ⟨update (update v m p) x q, ?_, fun {y} hy => ?_,
    fun {y} hy => ?_⟩
  · rcases hmove with h | h
    · rw [h.solves]
      refine hsolves _ (p + k - v m) ?_ ?_ fun y hym hyx => ?_
      · rw [Function.update_self, hwm]
        ring
      · rw [Function.update_of_ne (Ne.symm hne), hwx]
        linarith
      · rw [Function.update_of_ne hym, hw y hym hyx]
    · rw [h.solves]
      refine hsolves _ (p - v m) ?_ ?_ fun y hym hyx => ?_
      · rw [Function.update_of_ne hne, hwm]
        ring
      · rw [Function.update_self, hwx]
        linarith
      · rw [Function.update_of_ne hyx, hw y hym hyx]
  · by_cases hym : y = m
    · rw [hym, hwm]
      exact hp0
    · by_cases hyx : y = x
      · rw [hyx, hwx]
        exact hq0
      · rw [hw y hym hyx]
        exact hp.nonneg hy
  · exact (hw y (Symbol.ne_of_test hy hm) (Symbol.ne_of_test hy hx)).trans
      (hp.dummy hy)

end LinearConstraints.Tableau
