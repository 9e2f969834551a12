/-
Adjunction: a tableau learns one more equation.

A row in symbols that are not basic is to be zero. Either it is solved for
one of its symbols, which becomes basic, or an artificial symbol is made
equal to it, brought down to zero and retired. Both ways end in a tableau
whose solutions are those of the old one at which the row is zero
(`Adjoins`), and whose objective is worth the same at them.

# The artificial search

The objective of the search is the row itself, and at every solution it is
worth what the artificial symbol is. So the search is bounded, and where
it ends with a constant other than zero no proper solution makes the row
zero. Where the artificial symbol ends at zero but basic it is exchanged
for another symbol; a row of dummies alone would leave none, but such a
row cannot arise from one that mentions any other symbol: two solutions
that differ in that symbol alone would have to agree.

Main statements: `adjoins_install`, `adjoins_of_adjoin`,
`error_of_adjoin` and `value_ne_zero_of_adjoin`.
-/
import LinearConstraints.Proofs.PrimalSimplex
import LinearConstraints.Solver.Budget

namespace LinearConstraints.Tableau

open Function (update)

variable {t t' : Tableau Rat}

/-- The second tableau is the first with the equation that sets a row to
zero. -/
structure Adjoins (t : Tableau Rat) (r : Row Rat) (t' : Tableau Rat) :
    Prop where
  canonical : t'.Canonical
  separated : t'.Separated
  auxiliary : t'.auxiliary = none
  unused : ∀ {x}, t.Unused x → r.coefficient x = 0 → t'.Unused x
  solves : ∀ v, t'.Solves v ↔ t.Solves v ∧ r.value v = 0
  objective : ∀ v, t'.Solves v →
    t'.objective.value v = t.objective.value v

-- ================================================= solving for a symbol

section Define

variable {r d : Row Rat} {x : Symbol}

/-- Solving a row for one of its symbols adjoins it. -/
theorem adjoins_install (hc : t.Canonical) (hsep : t.Separated)
    (haux : t.auxiliary = none) (hred : r.Reduced)
    (hbasic : ∀ y, t.IsBasic y → r.coefficient y = 0)
    (hint : r.Internal ∨ x.isExternal = true)
    (hx : r.coefficient x ≠ 0) (hd : r.isolate? x = some d) :
    t.Adjoins r (t.install x d) := by
  have hnb : ¬ t.IsBasic x := fun hb => hx (hbasic x hb)
  have hcoef := Row.coefficient_of_isolate? hx hd
  have hcoef_zero : ∀ y, r.coefficient y = 0 → d.coefficient y = 0 := by
    intro y hy
    rw [hcoef, hy]
    split
    · rfl
    · rw [neg_zero, zero_div]
  have hvalue : ∀ v, v x = d.value v ↔ r.value v = 0 := by
    intro v
    rw [Row.value_of_isolate? hx hd]
    constructor
    · intro h
      have h₀ : r.value v / r.coefficient x = 0 := by linarith
      exact (div_eq_zero_iff.1 h₀).resolve_right hx
    · intro h
      rw [h, zero_div, sub_zero]
  refine ⟨?_, ?_, ?_, fun {y} hy hry => ?_, fun v => ?_, fun v hv => ?_⟩
  · refine hc.install (hred.isolate? hd) ?_
      fun y hy => hcoef_zero y (hbasic y hy)
    rw [hcoef, if_pos rfl]
  · refine hsep.install (hint.imp_left fun h y hy => ?_)
    exact hcoef_zero y (h y hy)
  · show t.auxiliary.map _ = none
    rw [haux]
    rfl
  · refine hy.install ?_ (hcoef_zero y hry)
    intro heq
    subst heq
    exact hx hry
  · rw [solves_install hnb, hvalue]
  · exact Row.value_substitute_of_eq _ ((solves_install hnb).1 hv).2

end Define

-- ================================================== forgetting a symbol

/-- The second tableau is the first with a symbol set to zero and
forgotten. -/
structure Retires (t : Tableau Rat) (x : Symbol) (t' : Tableau Rat) :
    Prop where
  canonical : t'.Canonical
  separated : t.Separated → t'.Separated
  auxiliary : t'.auxiliary = none
  unused : ∀ {y}, t.Unused y → t'.Unused y
  retired : t'.Unused x
  solves : ∀ v, t'.Solves v ↔ t.Solves (update v x 0)
  objective : ∀ v, t'.Solves v →
    t'.objective.value v = t.objective.value (update v x 0)
  feasible : t.Feasible → t'.Feasible
  dummiesIdle : t.DummiesIdle → t'.DummiesIdle

section Purge

variable {x : Symbol}

private theorem get?_rows_purge (t : Tableau Rat) (x b : Symbol) :
    (t.purge x).rows.get? b
      = (t.rows.get? b).map fun r => r.discard x :=
  Table.get?_map _ t.rows b

private theorem row_of_purge {b : Symbol} {r' : Row Rat}
    (h : (t.purge x).rows.get? b = some r') :
    ∃ r, t.rows.get? b = some r ∧ r' = r.discard x := by
  rw [get?_rows_purge] at h
  obtain ⟨r, hr, rfl⟩ := Option.map_eq_some_iff.1 h
  exact ⟨r, hr, rfl⟩

theorem isBasic_purge {y : Symbol} :
    (t.purge x).IsBasic y ↔ t.IsBasic y := by
  unfold IsBasic
  simp only [get?_rows_purge]
  cases t.rows.get? y <;> simp

private theorem form_purge (haux : t.auxiliary = none) {r' : Row Rat}
    (h : (t.purge x).Form r') : ∃ r, t.Form r ∧ r' = r.discard x := by
  cases h with
  | row h =>
      obtain ⟨r, hr, rfl⟩ := row_of_purge h
      exact ⟨r, .row hr, rfl⟩
  | objective => exact ⟨t.objective, .objective, rfl⟩
  | auxiliary h =>
      have h' : t.auxiliary = some r' := h
      rw [haux] at h'
      cases h'

/-- A symbol outside the basis is forgotten by dropping its cells. -/
private theorem retires_purge (hc : t.Canonical)
    (haux : t.auxiliary = none) (hx : ¬ t.IsBasic x) :
    t.Retires x (t.purge x) where
  canonical := {
    reduced := by
      intro r' hr'
      obtain ⟨r, hr, rfl⟩ := form_purge haux hr'
      exact (hc.reduced hr).discard x
    nonbasic := by
      intro r' hr' y hy
      obtain ⟨r, hr, rfl⟩ := form_purge haux hr'
      rw [Row.coefficient_discard, hc.nonbasic hr (isBasic_purge.1 hy)]
      exact ite_self 0 }
  separated := by
    intro hsep
    have hsub : ∀ r : Row Rat, r.Internal → (r.discard x).Internal := by
      intro r hr y hy
      rw [Row.coefficient_discard, hr y hy]
      exact ite_self 0
    refine ⟨fun {b r'} hr' hb => ?_, hsub _ hsep.objective,
      fun {a} ha => ?_, fun hx => hsep.stack hx⟩
    · obtain ⟨r, hr, rfl⟩ := row_of_purge hr'
      exact hsub r (hsep.rows hr hb)
    · have ha' : t.auxiliary = some a := ha
      rw [haux] at ha'
      cases ha'
  auxiliary := haux
  unused := by
    intro y hy
    refine ⟨fun hb => hy.not_basic (isBasic_purge.1 hb), fun hr' => ?_⟩
    obtain ⟨r, hr, rfl⟩ := form_purge haux hr'
    rw [Row.coefficient_discard, hy.coefficient hr]
    exact ite_self 0
  retired := by
    refine ⟨fun hb => hx (isBasic_purge.1 hb), fun hr' => ?_⟩
    obtain ⟨r, -, rfl⟩ := form_purge haux hr'
    rw [Row.coefficient_discard, if_pos rfl]
  solves := by
    intro v
    have hne : ∀ {b r}, t.rows.get? b = some r → b ≠ x := by
      intro b r hr heq
      subst heq
      exact hx ⟨r, hr⟩
    constructor
    · intro hv b r hr
      have h := hv b (r.discard x) (by rw [get?_rows_purge, hr]; rfl)
      rwa [Row.value_discard_eq_update,
        ← Function.update_of_ne (hne hr) 0 v] at h
    · intro hv b r' hr'
      obtain ⟨r, hr, rfl⟩ := row_of_purge hr'
      have h := hv b r hr
      rwa [Function.update_of_ne (hne hr),
        ← Row.value_discard_eq_update] at h
  objective := fun v _ => Row.value_discard_eq_update _ x v
  feasible := by
    intro hf b r' hr' hb
    obtain ⟨r, hr, rfl⟩ := row_of_purge hr'
    exact hf b r hr hb
  dummiesIdle := by
    intro hd b r' hr' hb
    obtain ⟨r, hr, rfl⟩ := row_of_purge hr'
    refine ⟨(hd b r hr hb).1, fun y hy => ?_⟩
    rw [Row.coefficient_discard, (hd b r hr hb).2 y hy]
    exact ite_self 0

end Purge

/-- A basic symbol whose row is empty is forgotten with its row. -/
private theorem retires_without (hc : t.Canonical)
    (haux : t.auxiliary = none) {x : Symbol} {r : Row Rat}
    (hr : t.rows.get? x = some r) (hzero : ∀ v, r.value v = 0) :
    t.Retires x (t.without x) where
  canonical := hc.without x
  separated := fun hsep => hsep.without x
  auxiliary := haux
  unused := fun hy => hy.without x
  retired := ⟨fun hb => (isBasic_without.1 hb).1 rfl,
    fun hr' => hc.nonbasic hr'.of_without ⟨r, hr⟩⟩
  solves := by
    intro v
    rw [solves_without hr, Function.update_self, hzero, eq_self_iff_true,
      and_true]
    have hsame : ∀ {b d}, (t.without x).rows.get? b = some d →
        (v b = d.value v
          ↔ update v x 0 b = d.value (update v x 0)) := by
      intro b d hd
      have hbx := (get?_of_without hd).1
      rw [Function.update_of_ne (Ne.symm hbx),
        Row.value_update_of_eq_zero
          (hc.nonbasic (.row (get?_of_without hd).2) ⟨r, hr⟩)]
    exact ⟨fun hv b d hd => (hsame hd).1 (hv b d hd),
      fun hv b d hd => (hsame hd).2 (hv b d hd)⟩
  objective := fun v _ =>
    (Row.value_update_of_eq_zero (hc.nonbasic .objective ⟨r, hr⟩) v 0).symm
  feasible := fun hf => hf.without x
  dummiesIdle := fun hd => hd.without x

-- ========================================================== retirement

section Retire

variable {art : Symbol}

/-- The symbol that takes the place of an artificial one occurs in the row,
and is no dummy. -/
theorem firstPivotable?_spec {r : Row Rat} {s : Symbol}
    (hred : r.Reduced) (h : r.firstPivotable? = some s) :
    r.coefficient s ≠ 0 ∧ s.isDummy = false := by
  exact ⟨hred.mem_symbols_iff.1 (List.mem_of_find?_eq_some h),
    Symbol.isDummy_of_isPivotable (List.find?_some h)⟩

/-- Exchanging a symbol that is zero moves no constant. -/
private theorem retires_of_exchange (hc : t.Canonical)
    (haux : t.auxiliary = none) (hart : art.isExternal = false)
    {r : Row Rat} (hr : t.rows.get? art = some r) (hzero : r.constant = 0)
    {s : Symbol} (hs : r.coefficient s ≠ 0) (hsd : s.isDummy = false)
    {t₁ : Tableau Rat} (h : t.exchange? art s = some t₁) :
    t.Retires art (t₁.purge art) := by
  obtain ⟨d, hp, rfl⟩ := pivot_of_exchange? h hr hs
  have hre := hp.restates hc hart
  have hd0 : d.constant = 0 := by
    rw [hp.constant (hp.not_basic hc), hzero, neg_zero, zero_div]
  have hnb : ¬ ((t.without art).install s d).IsBasic art := by
    intro hb
    rcases isBasic_install.1 hb with h | h
    · exact hp.ne (hp.not_basic hc) h
    · exact (isBasic_without.1 h).1 rfl
  have haux₁ : ((t.without art).install s d).auxiliary = none := by
    show t.auxiliary.map _ = none
    rw [haux]
    rfl
  have hpur := retires_purge hre.canonical haux₁ hnb
  refine ⟨hpur.canonical, fun hsep => hpur.separated (hre.separated hsep),
    hpur.auxiliary, fun hy => hpur.unused (hre.unused hy), hpur.retired,
    fun v => (hpur.solves v).trans (hre.solves _), fun v hv => ?_,
    fun hf => hpur.feasible ?_, fun hd => hpur.dummiesIdle ?_⟩
  · have hv := (hre.solves _).1 ((hpur.solves v).1 hv)
    rw [hpur.objective v ‹_›, hre.objective _ hv]
  · refine feasible_install (fun _ => le_of_eq hd0.symm)
      fun b r' hr' hb => ?_
    rw [hd0, mul_zero, add_zero]
    exact hf b r' (get?_of_without hr').2 hb
  · refine dummiesIdle_install (hd.without art) (fun b r' hr' hb => ?_)
      fun h => by rw [hsd] at h; cases h
    exact (hd b r' (get?_of_without hr').2 hb).2 s hsd

/-- Retiring a symbol that is zero forgets it. -/
theorem retires_of_retire (hc : t.Canonical) (haux : t.auxiliary = none)
    (hart : art.isExternal = false) (hzero : t.solution art = 0)
    (h : (t.retire art).result = .ok true) :
    t.Retires art (t.retire art).state := by
  generalize ho : t.retire art = o at h ⊢
  have hconst : ∀ {r}, t.rows.get? art = some r → r.constant = 0 :=
    fun hr => (solution_of_row hr).symm.trans hzero
  cases retire_eq_iff.1 ho with
  | away row => exact retires_purge hc haux (not_isBasic_iff.2 row)
  | empty row cells =>
      refine retires_without hc haux row fun v => ?_
      rw [Row.value_eq, hconst row]
      unfold Table.sum
      rw [List.isEmpty_iff.1 cells]
      exact add_zero 0
  | refused | absent => cases h
  | pivot row _ enters exchange =>
      obtain ⟨hne, hsd⟩ := firstPivotable?_spec (hc.reduced (.row row)) enters
      exact retires_of_exchange hc haux hart row (hconst row) hne hsd exchange

/-- Retirement fails only at a row without slack and error symbols. -/
theorem firstPivotable?_of_retire
    (h : (t.retire art).result = .ok false) :
    ∃ r, t.rows.get? art = some r ∧ r.firstPivotable? = none := by
  generalize ho : t.retire art = o at h
  cases retire_eq_iff.1 ho with
  | refused row _ enters => exact ⟨_, row, enters⟩
  | away | empty | absent | pivot => cases h

theorem error_of_retire {f : Failure}
    (h : (t.retire art).result = .error f) : f = .absentSymbol := by
  generalize ho : t.retire art = o at h
  cases retire_eq_iff.1 ho with
  | absent => exact (Except.error.inj h).symm
  | away | empty | refused | pivot => cases h

end Retire

-- ============================================== the artificial search

/-- A tableau without a symbol does not constrain it. -/
theorem Unused.solves_update {x : Symbol} (hx : t.Unused x)
    (v : Symbol → Rat) (a : Rat) :
    t.Solves (update v x a) ↔ t.Solves v := by
  have hsame : ∀ {b r}, t.rows.get? b = some r →
      (update v x a b = r.value (update v x a) ↔ v b = r.value v) := by
    intro b r hr
    rw [Row.value_update_of_eq_zero (hx.coefficient (.row hr)),
      Function.update_of_ne]
    intro heq
    subst heq
    exact hx.not_basic ⟨r, hr⟩
  exact ⟨fun hv b r hr => (hsame hr).1 (hv b r hr),
    fun hv b r hr => (hsame hr).2 (hv b r hr)⟩

/-- What the search for a solution of one more equation starts from: a row
that could be adjoined, and an artificial symbol that is new. -/
structure Adjoinable (t : Tableau Rat) (art : Symbol) (r : Row Rat) :
    Prop where
  canonical : t.Canonical
  separated : t.Separated
  reduced : r.Reduced
  nonbasic : ∀ x, t.IsBasic x → r.coefficient x = 0
  internal : r.Internal
  unused : t.Unused art
  fresh : r.coefficient art = 0
  slack : art.kind = .slack

section Search

variable {art : Symbol} {r : Row Rat} {budget : Nat}

namespace Adjoinable

theorem not_external (h : t.Adjoinable art r) :
    art.isExternal = false := by
  unfold Symbol.isExternal
  rw [h.slack]
  rfl

theorem not_dummy (h : t.Adjoinable art r) : art.isDummy = false := by
  unfold Symbol.isDummy
  rw [h.slack]
  rfl

end Adjoinable

theorem get?_rows_withArtificial (t : Tableau Rat) (art : Symbol)
    (r : Row Rat) (b : Symbol) :
    (t.withArtificial art r).rows.get? b
      = if art = b then some r else t.rows.get? b :=
  Table.get?_insert t.rows art b r

theorem isBasic_withArtificial {x : Symbol} :
    (t.withArtificial art r).IsBasic x ↔ x = art ∨ t.IsBasic x := by
  unfold IsBasic
  simp only [get?_rows_withArtificial]
  by_cases hx : art = x
  · simp [hx]
  · rw [if_neg hx]
    simp [Ne.symm hx]

private theorem form_withArtificial {r' : Row Rat}
    (h : (t.withArtificial art r).Form r') : r' = r ∨ t.Form r' := by
  cases h with
  | row h =>
      rw [get?_rows_withArtificial] at h
      split at h
      · exact Or.inl (Option.some.inj h).symm
      · exact Or.inr (.row h)
  | objective => exact Or.inr .objective
  | auxiliary h => exact Or.inl (Option.some.inj h).symm

theorem canonical_withArtificial (h : t.Adjoinable art r) :
    (t.withArtificial art r).Canonical where
  reduced := by
    intro r' hr'
    rcases form_withArtificial hr' with rfl | hold
    · exact h.reduced
    · exact h.canonical.reduced hold
  nonbasic := by
    intro r' hr' x hx
    rcases form_withArtificial hr' with rfl | hold
    · rcases isBasic_withArtificial.1 hx with rfl | hx
      · exact h.fresh
      · exact h.nonbasic x hx
    · rcases isBasic_withArtificial.1 hx with rfl | hx
      · exact h.unused.coefficient hold
      · exact h.canonical.nonbasic hold hx

theorem separated_withArtificial (h : t.Adjoinable art r) :
    (t.withArtificial art r).Separated where
  rows := by
    intro b r' hr' hb
    rw [get?_rows_withArtificial] at hr'
    split at hr'
    · exact Option.some.inj hr' ▸ h.internal
    · exact h.separated.rows hr' hb
  objective := h.separated.objective
  auxiliary := fun ha => Option.some.inj ha ▸ h.internal
  stack := h.separated.stack

/-- The artificial symbol has the value of the row. -/
private theorem solves_withArtificial (h : t.Adjoinable art r)
    (v : Symbol → Rat) :
    (t.withArtificial art r).Solves v
      ↔ t.Solves v ∧ v art = r.value v := by
  constructor
  · intro hv
    refine ⟨fun b d hd => hv b d ?_, hv art r ?_⟩
    · rw [get?_rows_withArtificial, if_neg, hd]
      intro heq
      subst heq
      exact h.unused.not_basic ⟨d, hd⟩
    · rw [get?_rows_withArtificial, if_pos rfl]
  · intro hboth b d hd
    obtain ⟨hv, hart⟩ := hboth
    rw [get?_rows_withArtificial] at hd
    split at hd
    case isTrue hb =>
      injection hd with hd
      rw [← hb, ← hd, hart]
    · exact hv b d hd

theorem unused_withArtificial {x : Symbol} (hx : t.Unused x)
    (hne : x ≠ art) (hr : r.coefficient x = 0) :
    (t.withArtificial art r).Unused x where
  not_basic := by
    intro hb
    rcases isBasic_withArtificial.1 hb with h | h
    · exact hne h
    · exact hx.not_basic h
  coefficient := by
    intro r' hr'
    rcases form_withArtificial hr' with rfl | hold
    · exact hr
    · exact hx.coefficient hold

/-- The objective of the search is worth what the artificial symbol
is. -/
private theorem monotone_withArtificial (h : t.Adjoinable art r) :
    (t.withArtificial art r).Monotone r := by
  intro v w hv hw hle
  rw [← ((solves_withArtificial h v).1 hv).2,
    ← ((solves_withArtificial h w).1 hw).2]
  exact hle art h.not_external

theorem feasible_withArtificial (hf : t.Feasible)
    (hr : 0 ≤ r.constant) :
    (t.withArtificial art r).Feasible := by
  intro b r' hr' hb
  rw [get?_rows_withArtificial] at hr'
  split at hr'
  · exact Option.some.inj hr' ▸ hr
  · exact hf b r' hr' hb

theorem dummiesIdle_withArtificial (h : t.Adjoinable art r)
    (hd : t.DummiesIdle) : (t.withArtificial art r).DummiesIdle := by
  intro b r' hr' hb
  rw [get?_rows_withArtificial] at hr'
  split at hr'
  case isTrue hab =>
    rw [← hab, h.not_dummy] at hb
    cases hb
  · exact hd b r' hr' hb

/-- Without its auxiliary objective a tableau stays canonical. -/
theorem canonical_dropAuxiliary (hc : t.Canonical) :
    ({ t with auxiliary := none } : Tableau Rat).Canonical := by
  have hform : ∀ {r'}, ({ t with auxiliary := none } : Tableau Rat).Form r'
      → t.Form r' := by
    intro r' hr'
    cases hr' with
    | row hb => exact .row hb
    | objective => exact .objective
    | auxiliary ha => cases ha
  exact ⟨fun hr => hc.reduced (hform hr),
    fun hr _ hx => hc.nonbasic (hform hr) hx⟩

private theorem unused_dropAuxiliary {x : Symbol} (hx : t.Unused x) :
    ({ t with auxiliary := none } : Tableau Rat).Unused x where
  not_basic := hx.not_basic
  coefficient := by
    intro r' hr'
    cases hr' with
    | row hb => exact hx.coefficient (.row hb)
    | objective => exact hx.coefficient .objective
    | auxiliary ha => cases ha

-- Below, `o` is the outcome of minimising the artificial symbol.

variable {o : Outcome (Tableau Rat) Failure Unit}

/-- Where the search ends its objective is still worth what the artificial
symbol is. -/
private theorem searched (h : t.Adjoinable art r)
    (ho : (t.withArtificial art r).minimise budget .auxiliary = o) :
    ∃ a, o.state.auxiliary = some a
      ∧ ∀ v, o.state.Solves v → a.value v = v art := by
  have hre := minimise_restates budget .auxiliary
    (canonical_withArtificial h)
  rw [ho] at hre
  have hval : ∀ v, o.state.Solves v →
      o.state.auxiliary.map (Row.value v) = some (v art) := by
    intro v hv
    have hv := (hre.solves v).1 hv
    rw [hre.auxiliary v hv, ((solves_withArtificial h v).1 hv).2]
    rfl
  cases ha : o.state.auxiliary with
  | none =>
      have := hval _ hre.canonical.solves_solution
      rw [ha] at this
      cases this
  | some a =>
      refine ⟨a, rfl, fun v hv => ?_⟩
      have := hval v hv
      rw [ha] at this
      exact Option.some.inj this

/-- How a search comes to an answer: it ends at a minimum of zero and the
artificial symbol is retired, or at another and there is no solution. -/
private theorem searchWith_eq_ok {found : Bool} {a : Row Rat}
    (ho : (t.withArtificial art r).minimise budget .auxiliary = o)
    (ha : o.state.auxiliary = some a)
    (h : (t.searchWith budget art r).result = .ok found) :
    o.result = .ok ()
      ∧ ((a.constant = 0 ∧ t.searchWith budget art r
            = ({ o.state with auxiliary := none } : Tableau Rat).retire art)
          ∨ (a.constant ≠ 0 ∧ found = false)) := by
  generalize hs : t.searchWith budget art r = m at h ⊢
  cases searchWith_eq_iff.1 hs with
  | failed => cases h
  | @above u minimised unreached =>
      obtain rfl := ho.symm.trans minimised
      have ha : u.auxiliary = some a := ha
      rw [ha, Option.any_some] at unreached
      refine ⟨rfl, Or.inr ⟨fun h0 => ?_, (Except.ok.inj h).symm⟩⟩
      rw [Scalar.nearZero_iff.2 h0] at unreached
      cases unreached
  | @zero u minimised reached =>
      obtain rfl := ho.symm.trans minimised
      have ha : u.auxiliary = some a := ha
      rw [ha, Option.any_some] at reached
      exact ⟨rfl, Or.inl ⟨Scalar.nearZero_iff.1 reached, rfl⟩⟩

/-- A successful search retires the artificial symbol. -/
private theorem retires_of_searchWith (h : t.Adjoinable art r)
    (ho : (t.withArtificial art r).minimise budget .auxiliary = o)
    (hok : (t.searchWith budget art r).result = .ok true) :
    ({ o.state with auxiliary := none } : Tableau Rat).Retires art
      (t.searchWith budget art r).state := by
  obtain ⟨a, ha, hval⟩ := searched h ho
  have hre := minimise_restates budget .auxiliary
    (canonical_withArtificial h)
  rw [ho] at hre
  obtain ⟨-, ⟨h0, heq⟩ | ⟨-, hf⟩⟩ := searchWith_eq_ok ho ha hok
  · have hzero : o.state.solution art = 0 := by
      have hsol := hre.canonical.solves_solution
      rw [← hval _ hsol, hre.canonical.value_solution (.auxiliary ha), h0]
    rw [heq] at hok ⊢
    exact retires_of_retire (canonical_dropAuxiliary hre.canonical) rfl
      h.not_external hzero hok
  · cases hf

/-- An adjunction that succeeds adjoins the row. -/
theorem adjoins_of_adjoin (h : t.Adjoinable art r)
    (hok : (t.adjoin budget art r).result = .ok true) :
    t.Adjoins r (t.adjoin budget art r).state := by
  have heq := adjoin_eq_of_ok hok
  rw [heq] at hok ⊢
  have hret := retires_of_searchWith h rfl hok
  have hre := minimise_restates budget .auxiliary
    (canonical_withArtificial h)
  -- setting the artificial symbol to zero says that the row is zero
  have hsolves : ∀ v, (t.withArtificial art r).Solves (update v art 0)
      ↔ t.Solves v ∧ r.value v = 0 := by
    intro v
    rw [solves_withArtificial h, h.unused.solves_update,
      Function.update_self, Row.value_update_of_eq_zero h.fresh, eq_comm]
  refine ⟨hret.canonical, ?_, hret.auxiliary, fun {x} hx hrx => ?_,
    fun v => ?_, fun v hv => ?_⟩
  · have hs := hre.separated (separated_withArtificial h)
    exact hret.separated ⟨fun hr hb => hs.rows hr hb, hs.objective,
      (fun ha => by cases ha), hs.stack⟩
  · by_cases hxa : x = art
    · exact hxa ▸ hret.retired
    · exact hret.unused (unused_dropAuxiliary
        (hre.unused (unused_withArtificial hx hxa hrx)))
  · exact (hret.solves v).trans ((hre.solves _).trans (hsolves v))
  · have hu := (hre.solves _).1 ((hret.solves v).1 hv)
    refine (hret.objective v hv).trans ((hre.objective _ hu).trans ?_)
    exact Row.value_update_of_eq_zero
      (h.unused.coefficient .objective) v 0

/-- A search for a solution is bounded: where it fails, it has not come to
an end. -/
theorem error_of_adjoin (h : t.Adjoinable art r) {f : Failure}
    (hf : (t.adjoin budget art r).result = .error f) :
    f = .absentSymbol ∨ f = .budgetSpent := by
  rw [result_adjoin] at hf
  generalize ho : t.searchWith budget art r = o at hf
  cases searchWith_eq_iff.1 ho with
  | failed minimised =>
      obtain rfl := Except.error.inj hf
      exact error_of_minimise budget .auxiliary (canonical_withArtificial h)
        rfl (monotone_withArtificial h) (by rw [minimised]; rfl)
  | above => cases hf
  | zero => exact Or.inl (error_of_retire hf)

/-- Adjoining to a feasible tableau leaves it feasible. -/
theorem adjoin_feasible (h : t.Adjoinable art r) (hf : t.Feasible)
    (hr : 0 ≤ r.constant)
    (hok : (t.adjoin budget art r).result = .ok true) :
    (t.adjoin budget art r).state.Feasible := by
  have heq := adjoin_eq_of_ok hok
  rw [heq] at hok ⊢
  exact (retires_of_searchWith h rfl hok).feasible
    (minimise_feasible budget .auxiliary (canonical_withArtificial h)
      (feasible_withArtificial hf hr))

theorem adjoin_dummiesIdle (h : t.Adjoinable art r) (hd : t.DummiesIdle)
    (hok : (t.adjoin budget art r).result = .ok true) :
    (t.adjoin budget art r).state.DummiesIdle := by
  have heq := adjoin_eq_of_ok hok
  rw [heq] at hok ⊢
  exact (retires_of_searchWith h rfl hok).dummiesIdle
    (minimise_dummiesIdle budget .auxiliary
      (dummiesIdle_withArtificial h hd))

-- ============================================================= refusal

/-- Where basic dummies are idle, the solutions that agree outside the
dummies' rows on all dummies agree on them: a unit of another symbol
moves no dummy. -/
private theorem complete_unit_dummy (hd : t.DummiesIdle) {x y : Symbol}
    (hx : x.isDummy = false) (hy : y.isDummy = true) :
    t.complete (Row.unit x) y = t.solution y := by
  by_cases hb : t.IsBasic y
  · obtain ⟨d, hdy⟩ := hb
    rw [complete_unit_of_row hdy, (hd y d hdy hy).2 x hx, add_zero]
  · rw [complete_of_not_basic hb, solution_of_not_basic hb,
      Row.unit_of_ne (Symbol.ne_of_test hy hx)]

/-- A row without slack and error symbols that is internal mentions
dummies only. -/
private theorem isDummy_of_firstPivotable? {a : Row Rat}
    (hred : a.Reduced) (hint : a.Internal)
    (h : a.firstPivotable? = none) {x : Symbol}
    (hx : a.coefficient x ≠ 0) : x.isDummy = true := by
  have hno := List.find?_eq_none.1 h x (hred.mem_symbols_iff.2 hx)
  have hext : x.isExternal ≠ true := fun he => hx (hint x he)
  unfold Symbol.isPivotable at hno
  unfold Symbol.isExternal at hext
  unfold Symbol.isDummy
  cases hk : x.kind with
  | dummy => rfl
  | external => rw [hk] at hext; exact absurd rfl hext
  | slack => rw [hk] at hno; exact absurd rfl hno
  | error => rw [hk] at hno; exact absurd rfl hno

/-- A row that mentions a symbol other than dummies still does so when it
is the artificial symbol's, so that symbol can be retired. -/
private theorem retire_ne_false (h : t.Adjoinable art r)
    (hd : t.DummiesIdle) {x : Symbol} (hx : x.isDummy = false)
    (hrx : r.coefficient x ≠ 0)
    (ho : (t.withArtificial art r).minimise budget .auxiliary = o) :
    (({ o.state with auxiliary := none } : Tableau Rat).retire art).result
      ≠ .ok false := by
  intro hfalse
  obtain ⟨a, ha, hpiv⟩ := firstPivotable?_of_retire hfalse
  have ha' : o.state.rows.get? art = some a := ha
  have hre := minimise_restates budget .auxiliary
    (canonical_withArtificial h)
  rw [ho] at hre
  have hint := (hre.separated (separated_withArtificial h)).rows ha'
    h.not_external
  have hred := hre.canonical.reduced (.row ha')
  -- the row of the artificial symbol is worth what `r` is
  have hvalue : ∀ v, t.Solves v →
      a.value (update v art (r.value v)) = r.value v := by
    intro v hv
    have hw : (t.withArtificial art r).Solves
        (update v art (r.value v)) := by
      rw [solves_withArtificial h, h.unused.solves_update,
        Function.update_self, Row.value_update_of_eq_zero h.fresh]
      exact ⟨hv, rfl⟩
    have := (hre.solves _).2 hw art a ha'
    rw [Function.update_self] at this
    exact this.symm
  -- two solutions that agree on all dummies but not at `x`
  have h₁ := hvalue _ h.canonical.solves_solution
  have h₂ := hvalue _ (h.canonical.solves_complete (Row.unit x))
  have hsame : a.value (update t.solution art (r.value t.solution))
      = a.value (update (t.complete (Row.unit x)) art
          (r.value (t.complete (Row.unit x)))) := by
    refine Row.value_congr fun y hy => ?_
    have hyd := isDummy_of_firstPivotable? hred hint hpiv hy
    have hya : y ≠ art := by
      intro heq
      subst heq
      rw [h.not_dummy] at hyd
      cases hyd
    rw [Function.update_of_ne hya, Function.update_of_ne hya,
      complete_unit_dummy hd hx hyd]
  rw [h₁, h₂, ← complete_zero, value_complete_of_nonbasic h.nonbasic,
    value_complete_of_nonbasic h.nonbasic, Row.value_unit,
    Row.value_eq_constant fun _ => mul_zero _] at hsame
  exact hrx (by linarith)

/-- Where a feasible tableau refuses a row that mentions more than
dummies, the row is zero at no proper solution. -/
theorem value_ne_zero_of_adjoin (h : t.Adjoinable art r)
    (hf : t.Feasible) (hd : t.DummiesIdle) (hr : 0 ≤ r.constant)
    {x : Symbol} (hx : x.isDummy = false) (hrx : r.coefficient x ≠ 0)
    (hno : (t.adjoin budget art r).result = .ok false)
    {v : Symbol → Rat} (hv : t.Solves v) (hp : Proper v) :
    r.value v ≠ 0 := by
  rw [result_adjoin] at hno
  generalize ho : (t.withArtificial art r).minimise budget .auxiliary = o
  obtain ⟨a, ha, hval⟩ := searched h ho
  have hre := minimise_restates budget .auxiliary
    (canonical_withArtificial h)
  have hfo := minimise_feasible budget .auxiliary
    (canonical_withArtificial h) (feasible_withArtificial hf hr)
  rw [ho] at hre hfo
  obtain ⟨hok, ⟨-, heq⟩ | ⟨hne, -⟩⟩ := searchWith_eq_ok ho ha hno
  · rw [heq] at hno
    exact absurd hno (retire_ne_false h hd hx hrx ho)
  · intro hzero
    have hlow : a.Lowest := by
      rw [← ho] at hok ha
      exact lowest_of_minimise hok ha
    have hint : a.Internal :=
      (hre.separated (separated_withArtificial h)).auxiliary ha
    -- the minimum is what the artificial symbol is there: above zero
    have hsol := hre.canonical.solves_solution
    have hpos : 0 < a.constant := by
      refine lt_of_le_of_ne ?_ (Ne.symm hne)
      rw [← hre.canonical.value_solution (.auxiliary ha), hval _ hsol]
      exact hfo.solution_nonneg h.not_external
    -- but the row would be zero at a proper valuation
    have hw : o.state.Solves (update v art 0) := by
      rw [hre.solves, solves_withArtificial h, h.unused.solves_update,
        Function.update_self, Row.value_update_of_eq_zero h.fresh]
      exact ⟨hv, hzero.symm⟩
    have hpw : Proper (update v art 0) := by
      refine ⟨fun {y} hy => ?_, fun {y} hy => ?_⟩
      · by_cases hya : y = art
        · rw [hya, Function.update_self]
        · rw [Function.update_of_ne hya]
          exact hp.nonneg hy
      · by_cases hya : y = art
        · rw [hya, Function.update_self]
        · rw [Function.update_of_ne hya]
          exact hp.dummy hy
    have hle := Row.constant_le_value_of_lowest hint hlow hpw
    rw [hval _ hw, Function.update_self] at hle
    linarith

end Search

end LinearConstraints.Tableau
