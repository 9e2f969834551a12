/-
Contracts: what the two searches and a removal promise on any tableau.

A solver works on tableaux that it has built itself, and much more is
known of those. The work relies on little of it: on rows and an objective
in which no basic symbol occurs, and on one condition on signs each. From
there on it is correct by itself, whatever is written in the rows, dummies
and external symbols included.

# Cells

What is asked of the rows is asked of their cells, not of the numbers in
them. A basic symbol with a stored zero would be a blemish too: a later
substitution could bring it to life. Conversely a stored zero at another
symbol does no harm, and the tableaux here need not be canonical.

# What carries the loops

The primal search starts from a feasible tableau (`PrimalReady`) and each
pivot leads to another. The dual search starts from a lowest objective
and a stack that names every negative row (`DualReady`); it may name
others too, or some twice, for a row is looked at again when its turn
comes. Both keep the solutions and what the objective is worth at them
(`Keeps`).

# What a removal forgets

A removal (`RemovalReady`) is one pivot, and the row that it makes is
dropped. The row is not looked at, and may have a negative constant; that
the others have none is due to which row the marker replaces. The
solutions that are left are those of before with the value of the marker
forgotten, in both directions: every one of them is completed by some
value, be it a negative one.

All of these conditions can be evaluated.

Main statements: `PrimalReady.minimise_contract`,
`DualReady.restore_contract` and `RemovalReady.dropMarker_contract`.
-/
import Mathlib.Order.Bounds.Defs
import LinearConstraints.Proofs.DualSimplex
import LinearConstraints.Proofs.Elimination
import LinearConstraints.Proofs.Tidy

namespace LinearConstraints

/-- A symbol that is none of those in a row has no coefficient there. -/
theorem Row.Within.coefficient_eq_zero {r : Row Rat} {P : Symbol → Prop}
    (h : r.Within P) {x : Symbol} (hx : ¬ P x) : r.coefficient x = 0 := by
  by_contra hne
  exact hx (h x (mem_symbols_iff.2 ⟨_, get?_of_coefficient_ne hne⟩))

/-- Only stored cells lower a form. -/
theorem Row.lowest_iff_entries {o : Row Rat} :
    o.Lowest ↔ ∀ c ∈ o.cells.entries, c.1.isDummy = false → 0 ≤ c.2 := by
  constructor
  · intro h c hc hd
    have hcell := coefficient_of_get? (Table.get?_eq_some_iff.2 hc)
    exact hcell ▸ h c.1 hd
  · intro h x hd
    by_cases h0 : o.coefficient x = 0
    · simp [h0]
    · have hcell := Table.get?_eq_some_iff.1 (get?_of_coefficient_ne h0)
      exact h _ hcell hd

instance {o : Row Rat} : Decidable o.Lowest :=
  decidable_of_iff _ Row.lowest_iff_entries.symm

namespace Tableau

variable {t t' : Tableau Rat} {b s : Symbol} {r d : Row Rat}

-- ==================================================== resolved tableaux

/-- No basic symbol has a cell in a row or in the objective. -/
structure Resolved (t : Tableau Rat) : Prop where
  row : ∀ {b r}, t.rows.get? b = some r →
    r.Within fun x => ¬ t.IsBasic x
  objective : t.objective.Within fun x => ¬ t.IsBasic x

/-- The tableau without its auxiliary objective. -/
def bare (t : Tableau Rat) : Tableau Rat := { t with auxiliary := none }

/-- This is tidiness, with no care for the auxiliary objective, all
symbols allowed and all of one side. -/
theorem resolved_iff_tidy :
    t.Resolved ↔ t.bare.Tidy (fun _ => true) Set.univ := by
  have hfree : ∀ x, ¬ t.IsBasic x ↔ t.bare.NonBasic Set.univ x := by
    intro x
    constructor
    · intro hx
      exact ⟨trivial, not_isBasic_iff.1 hx⟩
    · intro hx hb
      obtain ⟨r, hr⟩ := hb
      exact hx.ne hr rfl
  constructor
  · intro h
    refine ⟨fun _ => trivial, fun hr => (h.row hr).mono ?_,
      h.objective.mono fun x => (hfree x).1, fun ha => by cases ha⟩
    intro x hx
    exact ⟨(hfree x).1 hx, rfl⟩
  · intro h
    exact ⟨fun hr => (h.row hr).mono fun x hx => (hfree x).2 hx.1,
      h.objective.mono fun x => (hfree x).2⟩

namespace Resolved

/-- A pivot keeps basic symbols out of the forms. -/
theorem exchange? (h : t.Resolved) (ht : t.exchange? b s = some t') :
    t'.Resolved := by
  rw [resolved_iff_tidy] at h ⊢
  obtain ⟨r, d, hr, hd, rfl⟩ := exchange?_eq_some_iff.1 ht
  apply h.exchange?
  exact exchange?_eq_some_iff.2 ⟨r, d, hr, hd, rfl⟩

theorem pivot (h : t.Resolved) (hp : t.Pivot b s r d) :
    ((t.without b).install s d).Resolved :=
  h.exchange? (exchange?_eq_some_iff.2 ⟨r, d, hp.row, hp.definition, rfl⟩)

/-- A symbol that enters was not basic. -/
theorem not_basic (h : t.Resolved) (hp : t.Pivot b s r d) :
    ¬ t.IsBasic s := by
  intro hs
  apply hp.coefficient_ne
  exact (h.row hp.row).coefficient_eq_zero (not_not.2 hs)

theorem popped (h : t.Resolved) (rest : List Symbol) :
    (t.popped rest).Resolved := ⟨h.row, h.objective⟩

end Resolved

theorem resolved_iff_entries :
    t.Resolved ↔ (∀ e ∈ t.rows.entries, ∀ x ∈ e.2.symbols,
        x ∉ t.rows.keys) ∧ ∀ x ∈ t.objective.symbols, x ∉ t.rows.keys := by
  constructor
  · intro h
    refine ⟨fun e he x hx => ?_, fun x hx => ?_⟩
    · rw [mem_keys_iff]
      exact h.row (Table.get?_eq_some_iff.2 he) x hx
    · rw [mem_keys_iff]
      exact h.objective x hx
  · intro h
    refine ⟨fun {b r} hr x hx => ?_, fun x hx => ?_⟩
    · intro hb
      exact h.1 (b, r) (Table.get?_eq_some_iff.1 hr) x hx
        (mem_keys_iff.2 hb)
    · intro hb
      exact h.2 x hx (mem_keys_iff.2 hb)

instance : Decidable t.Resolved := decidable_of_iff _ resolved_iff_entries.symm

-- ======================================================= what is kept

/-- The second tableau has the solutions of the first, and at each of
them its objective is worth the same. -/
structure Keeps (t t' : Tableau Rat) : Prop where
  solves : ∀ v, t'.Solves v ↔ t.Solves v
  objective : ∀ v, t.Solves v →
    t'.objective.value v = t.objective.value v

theorem Keeps.refl (t : Tableau Rat) : t.Keeps t :=
  ⟨fun _ => Iff.rfl, fun _ _ => rfl⟩

theorem Keeps.trans {t'' : Tableau Rat} (h : t.Keeps t')
    (h' : t'.Keeps t'') : t.Keeps t'' where
  solves := fun v => (h'.solves v).trans (h.solves v)
  objective := fun v hv =>
    (h'.objective v ((h.solves v).2 hv)).trans (h.objective v hv)

theorem Pivot.keeps (hs : ¬ t.IsBasic s) (hp : t.Pivot b s r d) :
    t.Keeps ((t.without b).install s d) :=
  ⟨hp.solves hs, fun _ hv => hp.value_substitute hs hv _⟩

-- =========================================================== primal

/-- What the search for a minimum starts from: a resolved tableau in which
no row but external ones has a negative constant. -/
structure PrimalReady (t : Tableau Rat) : Prop extends t.Resolved where
  feasible : t.Feasible

instance : Decidable t.Feasible :=
  decidable_of_iff (∀ e ∈ t.rows.entries, e.1.isExternal = false →
    0 ≤ e.2.constant)
    (forall_rows_iff (P := fun b r => b.isExternal = false →
      0 ≤ r.constant)).symm

instance : Decidable t.PrimalReady :=
  decidable_of_iff (t.Resolved ∧ t.Feasible)
    ⟨fun h => ⟨h.1, h.2⟩, fun h => ⟨h.toResolved, h.feasible⟩⟩

/-- One pivot of the search. The symbol `s` that enters grows to `q`, the
least value at which a restricted row reaches zero, and the constant of
the objective moves by as much as this is worth. -/
theorem PrimalReady.step (h : t.PrimalReady)
    (hstep : primalStep .main t = .next t') :
    t'.PrimalReady ∧ t.Keeps t'
      ∧ ∃ s q, entering? t.objective = some s
          ∧ IsLeast {q | ∃ b, (b, q) ∈ t.limits s} q ∧ 0 ≤ q
          ∧ t.objective.coefficient s < 0
          ∧ t'.objective.constant
              = t.objective.constant + t.objective.coefficient s * q := by
  obtain ⟨o, s, b, r, d, ho, hs, hb, hp, rfl⟩ := primalStep_eq_next hstep
  obtain rfl := Option.some.inj ho
  have hfree := h.not_basic hp
  obtain ⟨r', hr', hext, hneg, hmin⟩ := leaving?_spec hb
  obtain rfl := Option.some.inj (hp.row.symm.trans hr')
  have hready : ((t.without b).install s d).PrimalReady :=
    ⟨h.toResolved.pivot hp, hp.feasible hfree hb h.feasible⟩
  refine ⟨hready, hp.keeps hfree, s, d.constant, hs, ⟨?_, ?_⟩,
    hp.constant_nonneg hfree (h.feasible b r hp.row hext) hneg,
    (entering?_spec hs).2, Row.constant_substitute ..⟩
  · exact ⟨b, mem_limits.2 ⟨r, hp.row, hext, hneg, hp.constant hfree⟩⟩
  · intro q hq
    obtain ⟨b', hq⟩ := hq
    obtain ⟨r', hr', hext', hneg', rfl⟩ := mem_limits.1 hq
    rw [hp.constant hfree]
    exact hmin b' r' hr' hext' hneg'

/-- A pivot does not raise the constant of the objective, and lowers it
exactly if the least ratio is positive. -/
theorem PrimalReady.constant_step (h : t.PrimalReady)
    (hstep : primalStep .main t = .next t') :
    t'.objective.constant ≤ t.objective.constant
      ∧ ∃ s q, entering? t.objective = some s
          ∧ IsLeast {q | ∃ b, (b, q) ∈ t.limits s} q ∧ 0 ≤ q
          ∧ (t'.objective.constant < t.objective.constant ↔ 0 < q) := by
  obtain ⟨-, -, s, q, hs, hleast, hq, hneg, hconst⟩ := h.step hstep
  rw [hconst]
  have hle := mul_nonpos_of_nonpos_of_nonneg (le_of_lt hneg) hq
  refine ⟨by linarith, s, q, hs, hleast, hq, ?_⟩
  constructor
  · intro hlt
    refine lt_of_le_of_ne hq fun h0 => ?_
    rw [← h0, mul_zero, add_zero] at hlt
    exact lt_irrefl _ hlt
  · intro hpos
    linarith [mul_neg_of_neg_of_pos hneg hpos]

/-- The contract of the search for a minimum. On a ready tableau a pivot
leads to a ready tableau again, so that the first part is about every
pivot of a run; the second is about what the whole run leaves behind,
however it ends. -/
theorem PrimalReady.minimise_contract (h : t.PrimalReady) :
    (∀ t', primalStep .main t = .next t' →
        t'.PrimalReady ∧ t.Keeps t'
          ∧ t'.objective.constant ≤ t.objective.constant
          ∧ ∃ s q, entering? t.objective = some s
              ∧ IsLeast {q | ∃ b, (b, q) ∈ t.limits s} q ∧ 0 ≤ q
              ∧ (t'.objective.constant < t.objective.constant ↔ 0 < q))
      ∧ ∀ budget : ℕ,
        (t.minimise budget .main).state.PrimalReady
          ∧ t.Keeps (t.minimise budget .main).state
          ∧ (t.minimise budget .main).state.objective.constant
              ≤ t.objective.constant
          ∧ ((t.minimise budget .main).result = .ok () →
              (t.minimise budget .main).state.objective.Lowest) := by
  refine ⟨fun t' hstep => ?_, fun budget => ?_⟩
  · obtain ⟨hready, hkeeps, -⟩ := h.step hstep
    exact ⟨hready, hkeeps, h.constant_step hstep⟩
  · have hrun : (t.minimise budget .main).state.PrimalReady
        ∧ t.Keeps (t.minimise budget .main).state
        ∧ (t.minimise budget .main).state.objective.constant
            ≤ t.objective.constant := by
      refine iterate_state (P := fun u => u.PrimalReady ∧ t.Keeps u
          ∧ u.objective.constant ≤ t.objective.constant)
        (fun u u' hu hnext => ?_) (fun u u' res hu hstop => ?_) budget
        ⟨h, .refl t, le_refl _⟩
      · obtain ⟨hu, hkeeps, hle⟩ := hu
        obtain ⟨hu', hkeeps', -⟩ := hu.step hnext
        exact ⟨hu', hkeeps.trans hkeeps',
          le_trans (hu.constant_step hnext).1 hle⟩
      · rwa [(primalStep_eq_stop hstop).1]
    exact ⟨hrun.1, hrun.2.1, hrun.2.2,
      fun hok => lowest_of_minimise hok rfl⟩

/-- Two restricted rows that reach zero together, an external one below
zero, and a dummy that would lower the objective. -/
def tied : Tableau Rat where
  rows := ((Table.empty.insert ⟨.slack, 1⟩
      ((Row.ofConstant 4).addCell ⟨.slack, 3⟩ (-2))).insert ⟨.slack, 2⟩
      ((Row.ofConstant 2).addCell ⟨.slack, 3⟩ (-1))).insert ⟨.external, 0⟩
      (((Row.ofConstant (-5)).addCell ⟨.slack, 3⟩ 3).addCell ⟨.dummy, 4⟩ 1)
  objective := ((Row.ofConstant 10).addCell ⟨.dummy, 4⟩ (-7)).addCell
    ⟨.slack, 3⟩ (-1)
  infeasible := []
  auxiliary := none

theorem tied_minimise_contract :
    tied.PrimalReady ∧ (tied.minimise 2 .main).result = .ok ()
      ∧ (tied.minimise 2 .main).state.PrimalReady
      ∧ tied.Keeps (tied.minimise 2 .main).state
      ∧ (tied.minimise 2 .main).state.objective.constant
          < tied.objective.constant
      ∧ (tied.minimise 2 .main).state.objective.Lowest := by
  have hready : tied.PrimalReady := by decide +kernel
  have hok : (tied.minimise 2 .main).result = .ok () :=
    Outcome.result_eq_ok (by decide +kernel)
  obtain ⟨hready', hkeeps, -, hlow⟩ := hready.minimise_contract.2 2
  exact ⟨hready, hok, hready', hkeeps, by decide +kernel, hlow hok⟩

-- ============================================================= dual

/-- What the repair starts from: a resolved tableau with a lowest
objective, and a stack that names restricted rows only, and all of those
that are negative. -/
structure DualReady (t : Tableau Rat) : Prop extends t.Resolved where
  lowest : t.objective.Lowest
  stack : ∀ x ∈ t.infeasible, x.isExternal = false
  pending : t.Pending

instance : Decidable t.Pending :=
  decidable_of_iff (∀ e ∈ t.rows.entries, e.1.isExternal = false →
    e.2.constant < 0 → e.1 ∈ t.infeasible)
    (forall_rows_iff (P := fun b r => b.isExternal = false →
      r.constant < 0 → b ∈ t.infeasible)).symm

instance : Decidable t.DualReady :=
  decidable_of_iff (t.Resolved ∧ t.objective.Lowest
      ∧ (∀ x ∈ t.infeasible, x.isExternal = false) ∧ t.Pending)
    ⟨fun h => ⟨h.1, h.2.1, h.2.2.1, h.2.2.2⟩,
      fun h => ⟨h.toResolved, h.lowest, h.stack, h.pending⟩⟩

/-- One step of the repair, whether it passes over a row or pivots. -/
theorem DualReady.step (h : t.DualReady) (hstep : dualStep t = .next t') :
    t'.DualReady ∧ t.Keeps t' := by
  obtain ⟨b, rest, hstack, hcases⟩ := dualStep_eq_next hstep
  have hrest : ∀ x ∈ rest, x.isExternal = false := fun x hx =>
    h.stack x (hstack ▸ List.mem_cons_of_mem b hx)
  rcases hcases with ⟨rfl, hpass⟩ | ⟨s, r, d, hneg, hent, hp, rfl⟩
  · exact ⟨⟨h.toResolved.popped rest, h.lowest, hrest,
      h.pending.popped hstack hpass⟩, fun _ => Iff.rfl, fun _ _ => rfl⟩
  · have hres := h.toResolved.popped rest
    have hfree := hres.not_basic hp
    have hb : ¬ ¬ (t.popped rest).IsBasic b := not_not.2 ⟨r, hp.row⟩
    have hkeeps := hp.keeps hfree
    refine ⟨⟨hres.pivot hp, ?_, fun x hx => ?_, ?_⟩,
      hkeeps.solves, hkeeps.objective⟩
    · exact Pivot.lowest hfree hp (hres.objective.coefficient_eq_zero hb)
        ((hres.row hp.row).coefficient_eq_zero hb) hent h.lowest
    · exact stack_substitute (t := (t.popped rest).without b)
        (fun {x} => hrest x) hx
    · exact hp.pending hfree hneg (dualEntering?_spec hent).2.1

/-- The contract of the repair. A step keeps what the search starts from;
a run that ends well leaves no restricted row negative and nothing on the
stack, under an objective that is still lowest, and with the solutions of
the tableau that it started from. -/
theorem DualReady.restore_contract (h : t.DualReady) {budget : ℕ}
    (hok : (t.restore budget).result = .ok ()) :
    (t.restore budget).state.Feasible
      ∧ (t.restore budget).state.objective.Lowest
      ∧ (t.restore budget).state.infeasible = []
      ∧ (t.restore budget).state.Resolved
      ∧ t.Keeps (t.restore budget).state := by
  have hnext : ∀ u u' : Tableau Rat, u.DualReady ∧ t.Keeps u →
      dualStep u = .next u' → u'.DualReady ∧ t.Keeps u' := by
    intro u u' hu hstep
    obtain ⟨hu, hkeeps⟩ := hu
    obtain ⟨hu', hkeeps'⟩ := hu.step hstep
    exact ⟨hu', hkeeps.trans hkeeps'⟩
  rcases iterate_induction hnext budget t ⟨h, .refl t⟩ with
    ⟨hspent, -⟩ | ⟨u, ⟨hu, hkeeps⟩, hstop⟩
  · cases hok.symm.trans hspent
  · obtain ⟨hst, hempty⟩ := (dualStep_eq_stop hstop).1 hok
    have hst : (t.restore budget).state = u := hst
    rw [hst]
    refine ⟨fun b r hr hb => ?_, hu.lowest, hempty, hu.toResolved, hkeeps⟩
    -- what is negative would be on the stack, and the stack is empty
    by_contra hneg
    have hmem := hu.pending b r hr hb (not_le.1 hneg)
    simp [hempty] at hmem

/-- Two negative rows, one of a dummy. The stack names the other one
twice, and rows that are not negative or not there. To raise `⟨.slack, 1⟩`
sinks `⟨.slack, 2⟩`. -/
def sunken : Tableau Rat where
  rows := (((Table.empty.insert ⟨.slack, 1⟩
      (((Row.ofConstant (-2)).addCell ⟨.dummy, 8⟩ 3).addCell ⟨.slack, 3⟩ 1)
      ).insert ⟨.slack, 2⟩
      (((Row.ofConstant 1).addCell ⟨.slack, 3⟩ (-1)).addCell ⟨.error, 4⟩ 2)
      ).insert ⟨.dummy, 5⟩ ((Row.ofConstant (-1)).addCell ⟨.slack, 6⟩ 1)
      ).insert ⟨.external, 0⟩
      ((Row.ofConstant (-7)).addCell ⟨.slack, 3⟩ 1)
  objective := (((Row.ofConstant 5).addCell ⟨.slack, 3⟩ 1).addCell
    ⟨.error, 4⟩ 4).addCell ⟨.dummy, 8⟩ (-1)
  infeasible := [⟨.slack, 1⟩, ⟨.slack, 2⟩, ⟨.slack, 7⟩, ⟨.dummy, 5⟩,
    ⟨.slack, 1⟩]
  auxiliary := none

theorem sunken_restore_contract :
    sunken.DualReady ∧ (sunken.restore 10).result = .ok ()
      ∧ (sunken.restore 10).state.Feasible
      ∧ (sunken.restore 10).state.objective.Lowest
      ∧ (sunken.restore 10).state.infeasible = []
      ∧ sunken.Keeps (sunken.restore 10).state := by
  have hready : sunken.DualReady := by decide +kernel
  have hok : (sunken.restore 10).result = .ok () :=
    Outcome.result_eq_ok (by decide +kernel)
  obtain ⟨hfeasible, hlow, hempty, -, hkeeps⟩ :=
    hready.restore_contract hok
  exact ⟨hready, hok, hfeasible, hlow, hempty, hkeeps⟩

-- ========================================================== removal

section Removal

variable {m : Symbol}

/-- What the removal of a marker starts from: rows in which no basic
symbol occurs, none of them negative but external ones, and a marker that
is not basic and occurs in one of them. -/
structure RemovalReady (t : Tableau Rat) (m : Symbol) : Prop where
  row : ∀ {b r}, t.rows.get? b = some r →
    ∀ {x}, t.IsBasic x → r.coefficient x = 0
  feasible : t.Feasible
  not_basic : ¬ t.IsBasic m
  occurs : ∃ b r, t.rows.get? b = some r ∧ r.coefficient m ≠ 0

theorem removalReady_iff_entries :
    t.RemovalReady m ↔
      (∀ e ∈ t.rows.entries, ∀ x ∈ t.rows.keys, e.2.coefficient x = 0)
        ∧ t.Feasible ∧ m ∉ t.rows.keys
        ∧ ∃ e ∈ t.rows.entries, e.2.coefficient m ≠ 0 := by
  constructor
  · intro h
    obtain ⟨b, r, hr, hne⟩ := h.occurs
    refine ⟨fun e he x hx => ?_, h.feasible,
      fun hm => h.not_basic (mem_keys_iff.1 hm),
      (b, r), Table.get?_eq_some_iff.1 hr, hne⟩
    exact h.row (Table.get?_eq_some_iff.2 he) (mem_keys_iff.1 hx)
  · intro h
    obtain ⟨hrow, hf, hm, e, he, hne⟩ := h
    refine ⟨fun {b r} hr {x} hx => ?_, hf,
      fun hb => hm (mem_keys_iff.2 hb),
      e.1, e.2, Table.get?_eq_some_iff.2 he, hne⟩
    exact hrow (b, r) (Table.get?_eq_some_iff.1 hr) x (mem_keys_iff.2 hx)

instance : Decidable (t.RemovalReady m) :=
  decidable_of_iff _ removalReady_iff_entries.symm

/-- A row can be solved for every symbol but its own that occurs in it. -/
theorem exists_pivot (hm : ¬ t.IsBasic m) (hr : t.rows.get? b = some r)
    (hne : r.coefficient m ≠ 0) : ∃ d, t.Pivot b m r d := by
  have hbm : b ≠ m := ne_of_not_basic hr hm
  cases hd : r.resolve? b m with
  | some d => exact ⟨d, hr, hne, hd⟩
  | none =>
      have hcell := Row.isolate?_eq_none_iff.1 hd
      rw [Row.get?_addCell, if_neg hbm,
        Row.get?_of_coefficient_ne hne] at hcell
      cases hcell

/-- The rows that are left once a marker has replaced a symbol and its own
row is dropped have no cell for it. -/
theorem Pivot.notMem_symbols (hp : t.Pivot b m r d) {x : Symbol}
    {r' : Row Rat}
    (hr' : ((t.without b).substitute m d).rows.get? x = some r') :
    m ∉ r'.symbols := by
  obtain ⟨r₀, -, rfl⟩ := row_of_substitute hr'
  have hd := (Row.resolve?_within hp.definition).2
  have hall : (r₀.substitute m d).Within (· ≠ m) :=
    Row.Within.substitute (fun _ _ hxm => hxm) fun _ =>
      hd.mono fun _ hx => hx.2
  exact fun hmem => hall m hmem rfl

/-- What is left has the solutions of before, the value of the marker
forgotten. -/
theorem Pivot.solves_substitute (hm : ¬ t.IsBasic m)
    (hp : t.Pivot b m r d) (v : Symbol → Rat) :
    ((t.without b).substitute m d).Solves v
      ↔ ∃ a, t.Solves (Function.update v m a) := by
  have hm' : ¬ (t.without b).IsBasic m := fun h => hm (isBasic_without.1 h).2
  have hrow : ((t.without b).install m d).rows.get? m = some d := by
    rw [get?_rows_install, if_pos rfl]
  rw [← without_install hm', solves_without_iff hrow fun x r' hr' => ?_]
  · exact exists_congr fun a => hp.solves hm _
  · rcases row_of_install hr' with ⟨-, rfl⟩ | ⟨r₀, -, rfl⟩
    · exact hp.coefficient_self hm
    · rw [Row.coefficient_substitute, hp.coefficient_self hm,
        Row.unit_self]
      ring

/-- The contract of a removal: a row is found, the marker takes the place
of its symbol, and the row that this makes is dropped. No restricted row
of those left is negative, none mentions the marker or a basic symbol, and
their solutions are those of before with the marker's value forgotten. -/
theorem RemovalReady.dropMarker_contract (h : t.RemovalReady m) :
    ∃ b t', t.markerLeaving? m = some b ∧ t.dropMarker m = .ok t'
      ∧ (∀ x, t'.IsBasic x ↔ b ≠ x ∧ t.IsBasic x)
      ∧ t'.Feasible
      ∧ (∀ x r, t'.rows.get? x = some r → m ∉ r.symbols
          ∧ ∀ y, t'.IsBasic y → r.coefficient y = 0)
      ∧ ∀ v, t'.Solves v ↔ ∃ a, t.Solves (Function.update v m a) := by
  have hm := h.not_basic
  cases hb : t.markerLeaving? m with
  | none =>
      obtain ⟨b, r, hr, hne⟩ := h.occurs
      exact absurd (coefficient_of_markerLeaving? hb hr) hne
  | some b =>
      obtain ⟨r, hr, hrow⟩ := markerLeaving?_spec hb
      obtain ⟨d, hp⟩ := exists_pivot hm hr hrow.coefficient_ne
      have hdrop : t.dropMarker m
          = .ok ((t.without b).substitute m d) :=
        dropMarker_eq_iff.2
          (.released (not_isBasic_iff.1 hm) hb hr hp.definition)
      have hbasic : ∀ x, ((t.without b).substitute m d).IsBasic x
          ↔ b ≠ x ∧ t.IsBasic x := by
        intro x
        rw [← mem_keys_iff, keys_substitute, mem_keys_iff, isBasic_without]
      refine ⟨b, _, rfl, hdrop, hbasic, hrow.feasible hm h.feasible hp,
        fun x r' hr' => ⟨hp.notMem_symbols hr', fun y hy => ?_⟩,
        hp.solves_substitute hm⟩
      obtain ⟨r₀, hr₀, rfl⟩ := row_of_substitute hr'
      obtain ⟨hby, hy⟩ := (hbasic y).1 hy
      have hmy : m ≠ y := fun heq => hm (heq ▸ hy)
      rw [Row.coefficient_substitute, h.row (get?_of_without hr₀).2 hy,
        hp.coefficient_eq_zero hm (Ne.symm hby) (h.row hr hy),
        Row.unit_of_ne hmy]
      ring

/-- A marker `⟨.slack, 9⟩` that no restricted row falls with. It shrinks
until `⟨.slack, 2⟩` reaches zero, and takes its place with a negative
constant. -/
def clamped : Tableau Rat where
  rows := (((Table.empty.insert ⟨.slack, 1⟩
      (((Row.ofConstant 3).addCell ⟨.slack, 9⟩ 1).addCell ⟨.slack, 5⟩ (-1))
      ).insert ⟨.slack, 2⟩
      (((Row.ofConstant 2).addCell ⟨.slack, 9⟩ 2).addCell ⟨.dummy, 4⟩ 1)
      ).insert ⟨.error, 3⟩ ((Row.ofConstant 0).addCell ⟨.slack, 5⟩ 1)
      ).insert ⟨.external, 0⟩ ((Row.ofConstant (-6)).addCell ⟨.slack, 9⟩ 4)
  objective := (Row.ofConstant 0).addCell ⟨.slack, 5⟩ 1
  infeasible := []
  auxiliary := none

theorem clamped_dropMarker_contract :
    clamped.RemovalReady ⟨.slack, 9⟩
      ∧ clamped.markerLeaving? ⟨.slack, 9⟩ = some ⟨.slack, 2⟩
      ∧ ∃ t', clamped.dropMarker ⟨.slack, 9⟩ = .ok t' ∧ t'.Feasible
          ∧ ∀ v, t'.Solves v
              ↔ ∃ a, clamped.Solves (Function.update v ⟨.slack, 9⟩ a) := by
  have hready : clamped.RemovalReady ⟨.slack, 9⟩ := by decide +kernel
  have hleaving : clamped.markerLeaving? ⟨.slack, 9⟩ = some ⟨.slack, 2⟩ := by
    decide +kernel
  obtain ⟨b, t', -, hdrop, -, hf, -, hsolves⟩ := hready.dropMarker_contract
  exact ⟨hready, hleaving, t', hdrop, hf, hsolves⟩

end Removal

end Tableau

end LinearConstraints
