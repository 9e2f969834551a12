/-
Canonical tableaux: the definitions mention no symbol that they define.

The rows of a tableau and its objectives are its forms. In a canonical
tableau no form mentions a basic symbol, and none stores a zero. Then the
symbols that are not basic may be chosen freely, and each choice extends
to exactly one solution of the rows (`complete`); so what two solutions
have in common can be read off coefficients.

# Kinds of symbols

External symbols stand for variables of either sign, all others may not
be negative. A tableau is `Separated` if external symbols occur only in
the definitions of external symbols. The ratio tests pass over external
rows, and this is why they may.

Main statements: `Canonical.solves_complete`, `Canonical.solves_solution`
and what substitution, installation and release of a row do to the forms
and to the solutions.
-/
import LinearConstraints.Proofs.RowAlgebra
import LinearConstraints.Tableau.Basic

namespace LinearConstraints

-- =============================================================== forms

/-- The row does not mention external symbols. -/
def Row.Internal (r : Row Rat) : Prop :=
  ∀ x, x.isExternal = true → r.coefficient x = 0

namespace Tableau

/-- The symbol has a row. -/
def IsBasic (t : Tableau Rat) (x : Symbol) : Prop :=
  ∃ r, t.rows.get? x = some r

/-- The rows of a tableau and its objectives. -/
inductive Form (t : Tableau Rat) : Row Rat → Prop where
  | row {b : Symbol} {r : Row Rat} (h : t.rows.get? b = some r) : Form t r
  | objective : Form t t.objective
  | auxiliary {a : Row Rat} (h : t.auxiliary = some a) : Form t a

/-- No form mentions a basic symbol or stores a zero. -/
structure Canonical (t : Tableau Rat) : Prop where
  reduced : ∀ {r}, t.Form r → r.Reduced
  nonbasic : ∀ {r}, t.Form r → ∀ {x}, t.IsBasic x → r.coefficient x = 0

/-- External symbols occur only in external rows. Their rows never have to
be repaired. -/
structure Separated (t : Tableau Rat) : Prop where
  rows : ∀ {b r}, t.rows.get? b = some r → b.isExternal = false →
    r.Internal
  objective : t.objective.Internal
  auxiliary : ∀ {a}, t.auxiliary = some a → a.Internal
  stack : ∀ {x}, x ∈ t.infeasible → x.isExternal = false

/-- The symbol occurs nowhere. -/
structure Unused (t : Tableau Rat) (x : Symbol) : Prop where
  not_basic : ¬ t.IsBasic x
  coefficient : ∀ {r}, t.Form r → r.coefficient x = 0

variable {t : Tableau Rat}

theorem not_isBasic_iff {x : Symbol} :
    ¬ t.IsBasic x ↔ t.rows.get? x = none :=
  not_exists.trans Option.eq_none_iff_forall_ne_some.symm

/-- A symbol with a row is not one without. -/
theorem ne_of_not_basic {b x : Symbol} {r : Row Rat}
    (hr : t.rows.get? b = some r) (hx : ¬ t.IsBasic x) : b ≠ x :=
  fun heq => hx ⟨r, heq ▸ hr⟩

theorem mem_keys_iff {x : Symbol} : x ∈ t.rows.keys ↔ t.IsBasic x :=
  Table.mem_keys_iff

/-- A condition on rows is one on the entries of their table. -/
theorem forall_rows_iff {P : Symbol → Row Rat → Prop} :
    (∀ b r, t.rows.get? b = some r → P b r)
      ↔ ∀ e ∈ t.rows.entries, P e.1 e.2 := by
  constructor
  · intro h e he
    exact h e.1 e.2 (Table.get?_eq_some_iff.2 he)
  · intro h b r hr
    exact h (b, r) (Table.get?_eq_some_iff.1 hr)

-- =========================================================== solutions

/-- The valuation that agrees with `w` outside the basis and with the
definitions on it. -/
def complete (t : Tableau Rat) (w : Symbol → Rat) : Symbol → Rat :=
  fun x =>
    match t.rows.get? x with
    | some r => r.value w
    | none => w x

theorem complete_of_row {w : Symbol → Rat} {b : Symbol} {r : Row Rat}
    (h : t.rows.get? b = some r) : t.complete w b = r.value w := by
  unfold complete
  rw [h]

theorem complete_of_not_basic {w : Symbol → Rat} {x : Symbol}
    (h : ¬ t.IsBasic x) : t.complete w x = w x := by
  unfold complete
  rw [not_isBasic_iff.1 h]

theorem solution_of_row {b : Symbol} {r : Row Rat}
    (h : t.rows.get? b = some r) : t.solution b = r.constant := by
  unfold solution
  rw [h]

theorem solution_of_not_basic {x : Symbol} (h : ¬ t.IsBasic x) :
    t.solution x = 0 := by
  unfold solution
  rw [not_isBasic_iff.1 h]

/-- The solution of a tableau sets all symbols outside the basis to
zero. -/
theorem complete_zero (t : Tableau Rat) :
    t.complete (fun _ => 0) = t.solution := by
  funext x
  by_cases hx : t.IsBasic x
  · obtain ⟨r, hr⟩ := hx
    rw [complete_of_row hr, solution_of_row hr]
    exact Row.value_eq_constant fun _ => mul_zero _
  · rw [complete_of_not_basic hx, solution_of_not_basic hx]

/-- Completing a valuation does not change the value of a row that
mentions no basic symbol. -/
theorem value_complete_of_nonbasic {r : Row Rat}
    (h : ∀ x, t.IsBasic x → r.coefficient x = 0) (w : Symbol → Rat) :
    r.value (t.complete w) = r.value w := by
  refine Row.value_congr fun x hx => ?_
  exact complete_of_not_basic fun hb => hx (h x hb)

namespace Canonical

theorem value_complete (hc : t.Canonical) {r : Row Rat} (hr : t.Form r)
    (w : Symbol → Rat) : r.value (t.complete w) = r.value w :=
  value_complete_of_nonbasic (fun _ hx => hc.nonbasic hr hx) w

theorem solves_complete (hc : t.Canonical) (w : Symbol → Rat) :
    t.Solves (t.complete w) := by
  intro b r hr
  rw [complete_of_row hr, hc.value_complete (.row hr)]

theorem solves_solution (hc : t.Canonical) : t.Solves t.solution := by
  rw [← complete_zero]
  exact hc.solves_complete _

/-- At the solution every form has the value of its constant. -/
theorem value_solution (hc : t.Canonical) {r : Row Rat}
    (hr : t.Form r) : r.value t.solution = r.constant := by
  rw [← complete_zero, hc.value_complete hr]
  exact Row.value_eq_constant fun _ => mul_zero _

/-- One unit of a symbol outside the basis, added to the solution: every
form gains its coefficient. -/
theorem value_complete_unit (hc : t.Canonical) {r : Row Rat}
    (hr : t.Form r) (x : Symbol) :
    r.value (t.complete (Row.unit x))
      = r.value t.solution + r.coefficient x := by
  rw [hc.value_complete hr, Row.value_unit, hc.value_solution hr]

end Canonical

theorem complete_unit_of_row {b : Symbol} {r : Row Rat}
    (hr : t.rows.get? b = some r) (x : Symbol) :
    t.complete (Row.unit x) b = t.solution b + r.coefficient x := by
  rw [complete_of_row hr, Row.value_unit, solution_of_row hr]

-- ================================================== another objective

section Objective

variable {o : Row Rat}

/-- The tableau with another objective. -/
def withObjective (t : Tableau Rat) (o : Row Rat) : Tableau Rat :=
  { t with objective := o }

theorem Form.of_withObjective {r : Row Rat}
    (h : (t.withObjective o).Form r) : r = o ∨ t.Form r := by
  cases h with
  | row h => exact Or.inr (.row h)
  | objective => exact Or.inl rfl
  | auxiliary h => exact Or.inr (.auxiliary h)

theorem Canonical.withObjective (hc : t.Canonical) (ho : o.Reduced)
    (hbasic : ∀ x, t.IsBasic x → o.coefficient x = 0) :
    (t.withObjective o).Canonical where
  reduced := by
    intro r hr
    rcases hr.of_withObjective with rfl | hr
    · exact ho
    · exact hc.reduced hr
  nonbasic := by
    intro r hr x hx
    rcases hr.of_withObjective with rfl | hr
    · exact hbasic x hx
    · exact hc.nonbasic hr hx

theorem Separated.withObjective (hs : t.Separated) (ho : o.Internal) :
    (t.withObjective o).Separated :=
  ⟨hs.rows, ho, hs.auxiliary, hs.stack⟩

theorem Unused.withObjective {x : Symbol} (hx : t.Unused x)
    (ho : o.coefficient x = 0) : (t.withObjective o).Unused x where
  not_basic := hx.not_basic
  coefficient := by
    intro r hr
    rcases hr.of_withObjective with rfl | hr
    · exact ho
    · exact hx.coefficient hr

end Objective

-- ======================================================= substitution

section Substitute

variable {s : Symbol} {d : Row Rat}

theorem isNegative_iff {x : Symbol} {r : Row Rat} :
    isNegative x r = true ↔ x.isExternal = false ∧ r.constant < 0 := by
  unfold isNegative
  rw [Bool.and_eq_true, Bool.not_eq_true', decide_eq_true_eq]

/-- No substitution puts an external symbol on the stack. -/
theorem stack_substitute
    (h : ∀ {x}, x ∈ t.infeasible → x.isExternal = false) {x : Symbol}
    (hx : x ∈ (t.substitute s d).infeasible) : x.isExternal = false := by
  rcases mem_infeasible_substitute.1 hx with ⟨r, -, hneg⟩ | hx
  · exact (isNegative_iff.1 hneg).1
  · exact h hx

theorem isBasic_substitute {x : Symbol} :
    (t.substitute s d).IsBasic x ↔ t.IsBasic x := by
  rw [← mem_keys_iff, keys_substitute, mem_keys_iff]

/-- Where a symbol has the value of its definition, substituting it keeps
the solutions. -/
theorem solves_substitute {v : Symbol → Rat} (h : v s = d.value v) :
    (t.substitute s d).Solves v ↔ t.Solves v := by
  constructor
  · intro hv b r hr
    have hb := hv b (r.substitute s d) (by rw [get?_rows_substitute, hr]; rfl)
    rwa [Row.value_substitute_of_eq r h] at hb
  · intro hv b r' hr'
    obtain ⟨r, hr, rfl⟩ := row_of_substitute hr'
    rw [Row.value_substitute_of_eq r h]
    exact hv b r hr

end Substitute

-- ======================================================= installation

section Install

variable {s : Symbol} {d : Row Rat}

theorem Form.of_install {r' : Row Rat} (h : (t.install s d).Form r') :
    r' = d ∨ ∃ r, t.Form r ∧ r' = r.substitute s d := by
  cases h with
  | row h =>
      rcases row_of_install h with ⟨-, rfl⟩ | ⟨r, hr, rfl⟩
      · exact Or.inl rfl
      · exact Or.inr ⟨r, .row hr, rfl⟩
  | objective => exact Or.inr ⟨t.objective, .objective, rfl⟩
  | auxiliary h =>
      obtain ⟨a, ha, rfl⟩ := Option.map_eq_some_iff.1 h
      exact Or.inr ⟨a, .auxiliary ha, rfl⟩

theorem isBasic_install {x : Symbol} :
    (t.install s d).IsBasic x ↔ x = s ∨ t.IsBasic x := by
  unfold IsBasic
  simp only [get?_rows_install]
  by_cases hx : s = x
  · simp [hx]
  · rw [if_neg hx]
    simp [Ne.symm hx]

/-- Installing a definition adds it to what the tableau says. -/
theorem solves_install (hs : ¬ t.IsBasic s) {v : Symbol → Rat} :
    (t.install s d).Solves v ↔ t.Solves v ∧ v s = d.value v := by
  have hrows : (t.install s d).Solves v ↔
      (t.substitute s d).Solves v ∧ v s = d.value v := by
    constructor
    · intro hv
      refine ⟨fun b r hr => hv b r ?_, hv s d ?_⟩
      · rw [get?_rows_install, if_neg, ← get?_rows_substitute, hr]
        intro heq
        subst heq
        exact hs (isBasic_substitute.1 ⟨r, hr⟩)
      · rw [get?_rows_install, if_pos rfl]
    · intro hboth b r hr
      obtain ⟨hv, hd⟩ := hboth
      rw [get?_rows_install] at hr
      split at hr
      case isTrue hb =>
        injection hr with hr
        rw [← hb, ← hr, hd]
      · exact hv b r (by rw [get?_rows_substitute, hr])
  rw [hrows]
  constructor
  · intro hboth
    obtain ⟨hv, hd⟩ := hboth
    exact ⟨(solves_substitute hd).1 hv, hd⟩
  · intro hboth
    obtain ⟨hv, hd⟩ := hboth
    exact ⟨(solves_substitute hd).2 hv, hd⟩

/-- Installing a definition that mentions no basic symbol and not its own
keeps a tableau canonical. -/
theorem Canonical.install (hc : t.Canonical) (hd : d.Reduced)
    (hself : d.coefficient s = 0)
    (hbasic : ∀ x, t.IsBasic x → d.coefficient x = 0) :
    (t.install s d).Canonical where
  reduced := by
    intro r' hr'
    rcases Form.of_install hr' with rfl | ⟨r, hr, rfl⟩
    · exact hd
    · exact (hc.reduced hr).substitute s d
  nonbasic := by
    intro r' hr' x hx
    have hdx : d.coefficient x = 0 := by
      rcases isBasic_install.1 hx with rfl | hx
      · exact hself
      · exact hbasic x hx
    rcases Form.of_install hr' with rfl | ⟨r, hr, rfl⟩
    · exact hdx
    · rw [Row.coefficient_substitute, hdx]
      rcases isBasic_install.1 hx with rfl | hx
      · rw [Row.unit_self]
        ring
      · by_cases hxs : s = x
        · rw [hxs, Row.unit_self]
          ring
        · rw [Row.unit_of_ne hxs, hc.nonbasic hr hx]
          ring

/-- Installing an internal definition keeps a tableau separated. So does
installing the definition of an external symbol that no internal row
mentions, and this is the only other kind. -/
theorem Separated.install (hsep : t.Separated)
    (hd : d.Internal ∨ s.isExternal = true) :
    (t.install s d).Separated := by
  have hsub : ∀ r : Row Rat, r.Internal → (r.substitute s d).Internal := by
    intro r hr x hx
    rw [Row.coefficient_substitute, hr x hx]
    rcases hd with hd | hs
    · rw [hd x hx]
      by_cases hxs : s = x
      · rw [hr s (by rw [hxs, hx])]
        ring
      · rw [Row.unit_of_ne hxs]
        ring
    · rw [hr s hs]
      ring
  refine ⟨fun {b r} hr hb => ?_, hsub _ hsep.objective,
    fun {a} ha => ?_, fun hx => stack_substitute hsep.stack hx⟩
  · rcases row_of_install hr with ⟨rfl, rfl⟩ | ⟨r₀, hr₀, rfl⟩
    · rcases hd with hd | hs
      · exact hd
      · rw [hs] at hb
        cases hb
    · exact hsub r₀ (hsep.rows hr₀ hb)
  · obtain ⟨a₀, ha₀, rfl⟩ := Option.map_eq_some_iff.1 ha
    exact hsub a₀ (hsep.auxiliary ha₀)

theorem Unused.install {x : Symbol} (hx : t.Unused x) (hxs : x ≠ s)
    (hd : d.coefficient x = 0) : (t.install s d).Unused x where
  not_basic := by
    intro hb
    rcases isBasic_install.1 hb with h | h
    · exact hxs h
    · exact hx.not_basic h
  coefficient := by
    intro r' hr'
    rcases Form.of_install hr' with rfl | ⟨r, hr, rfl⟩
    · exact hd
    · rw [Row.coefficient_substitute, hd, hx.coefficient hr,
        Row.unit_of_ne (Ne.symm hxs)]
      ring

end Install

end Tableau

end LinearConstraints
