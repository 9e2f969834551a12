/-
Elimination: a tableau forgets a symbol, and with it the equation that
only this symbol ties to the others.

A basic symbol is forgotten by dropping its row: the row says no more than
what the symbol is. A symbol that some row mentions is made basic first,
and then dropped. Either way the solutions that remain are those that
some value of the symbol completes to a solution of before
(`Eliminates`).

# Which row the marker replaces

The choice of the row is what keeps the other rows from turning negative:
the marker grows until a falling row reaches zero, or, where none falls,
shrinks until a rising one does. External rows are taken only where no
restricted row mentions the marker, and then no restricted row changes.
Dummies that are idle mention no marker but dummies, so that they, too,
stay as they are unless a dummy is eliminated.

Main statements: `eliminates_of_dropMarker`, `feasible_of_dropMarker`,
`dummiesIdle_of_dropMarker` and `coefficient_of_dropMarker`: where no row
is found for the marker it occurs nowhere.
-/
import LinearConstraints.Proofs.PrimalSimplex
import LinearConstraints.Tableau.Removal

namespace LinearConstraints.Tableau

open Function (update)

variable {t t' : Tableau Rat} {m : Symbol}

-- ====================================================== the candidates

theorem mem_fallingRows {b : Symbol} {q : Rat} :
    (b, q) ∈ t.fallingRows m ↔ ∃ r, t.rows.get? b = some r
      ∧ b.isExternal = false ∧ r.coefficient m < 0
      ∧ q = -r.constant / r.coefficient m := by
  have h := Table.mem_filterMap_iff (t := t.rows) (k := b) (c := q)
    (p := fun b r => !b.isExternal && decide (r.coefficient m < 0))
    (f := fun _ r => -r.constant / r.coefficient m)
  refine Iff.trans h (exists_congr fun r => and_congr_right fun _ => ?_)
  rw [Bool.and_eq_true, Bool.not_eq_true', decide_eq_true_eq, and_assoc]

theorem mem_risingRows {b : Symbol} {q : Rat} :
    (b, q) ∈ t.risingRows m ↔ ∃ r, t.rows.get? b = some r
      ∧ b.isExternal = false ∧ 0 < r.coefficient m
      ∧ q = r.constant / r.coefficient m := by
  have h := Table.mem_filterMap_iff (t := t.rows) (k := b) (c := q)
    (p := fun b r => !b.isExternal && decide (0 < r.coefficient m))
    (f := fun _ r => r.constant / r.coefficient m)
  refine Iff.trans h (exists_congr fun r => and_congr_right fun _ => ?_)
  rw [Bool.and_eq_true, Bool.not_eq_true', decide_eq_true_eq, and_assoc]

theorem mem_externalRows {b : Symbol} :
    b ∈ t.externalRows m ↔ ∃ r, t.rows.get? b = some r
      ∧ b.isExternal = true ∧ r.coefficient m ≠ 0 := by
  unfold externalRows
  rw [Table.mem_keys_filter_iff]
  refine exists_congr fun r => and_congr_right fun _ => ?_
  rw [Bool.and_eq_true, Scalar.not_beq_zero_iff]

/-- Why a row was chosen for a marker to replace. -/
inductive MarkerRow (t : Tableau Rat) (m b : Symbol) (r : Row Rat) :
    Prop where
  /-- No other row falls to zero earlier as the marker grows. -/
  | falling (restricted : b.isExternal = false)
      (neg : r.coefficient m < 0)
      (first : ∀ b' r', t.rows.get? b' = some r' →
        b'.isExternal = false → r'.coefficient m < 0 →
        -r.constant / r.coefficient m ≤ -r'.constant / r'.coefficient m)
  /-- No row falls, and no other falls earlier as the marker shrinks. -/
  | rising (restricted : b.isExternal = false)
      (pos : 0 < r.coefficient m)
      (none_falls : ∀ b' r', t.rows.get? b' = some r' →
        b'.isExternal = false → 0 ≤ r'.coefficient m)
      (first : ∀ b' r', t.rows.get? b' = some r' →
        b'.isExternal = false → 0 < r'.coefficient m →
        r.constant / r.coefficient m ≤ r'.constant / r'.coefficient m)
  /-- No restricted row mentions the marker. -/
  | external (unrestricted : b.isExternal = true)
      (ne : r.coefficient m ≠ 0)
      (none_moves : ∀ b' r', t.rows.get? b' = some r' →
        b'.isExternal = false → r'.coefficient m = 0)

theorem MarkerRow.coefficient_ne {b : Symbol} {r : Row Rat}
    (h : t.MarkerRow m b r) : r.coefficient m ≠ 0 := by
  cases h with
  | falling _ neg _ => exact ne_of_lt neg
  | rising _ pos _ _ => exact ne_of_gt pos
  | external _ ne _ => exact ne

private theorem nonneg_of_fallingRows (h : t.fallingRows m = [])
    {b : Symbol} {r : Row Rat} (hr : t.rows.get? b = some r)
    (hb : b.isExternal = false) : 0 ≤ r.coefficient m := by
  by_contra hneg
  have hmem := mem_fallingRows.2 ⟨r, hr, hb, not_le.1 hneg, rfl⟩
  rw [h] at hmem
  cases hmem

private theorem nonpos_of_risingRows (h : t.risingRows m = [])
    {b : Symbol} {r : Row Rat} (hr : t.rows.get? b = some r)
    (hb : b.isExternal = false) : r.coefficient m ≤ 0 := by
  by_contra hpos
  have hmem := mem_risingRows.2 ⟨r, hr, hb, not_le.1 hpos, rfl⟩
  rw [h] at hmem
  cases hmem

/-- The chosen row is one of the three kinds. -/
theorem markerLeaving?_spec {b : Symbol}
    (h : t.markerLeaving? m = some b) :
    ∃ r, t.rows.get? b = some r ∧ t.MarkerRow m b r := by
  unfold markerLeaving? at h
  cases hf : Scalar.leastRatio (t.fallingRows m) with
  | some b₁ =>
      rw [hf, Option.some_or] at h
      obtain rfl := Option.some.inj h
      obtain ⟨q, hmem, hmin⟩ := Scalar.leastRatio_spec hf
      obtain ⟨r, hr, hb, hneg, rfl⟩ := mem_fallingRows.1 hmem
      exact ⟨r, hr, .falling hb hneg fun b' r' hr' hb' hneg' =>
        hmin _ (mem_fallingRows.2 ⟨r', hr', hb', hneg', rfl⟩)⟩
  | none =>
      have hf := Scalar.leastRatio_eq_none hf
      rw [hf] at h
      cases hrise : Scalar.leastRatio (t.risingRows m) with
      | some b₁ =>
          rw [hrise] at h
          obtain rfl := Option.some.inj h
          obtain ⟨q, hmem, hmin⟩ := Scalar.leastRatio_spec hrise
          obtain ⟨r, hr, hb, hpos, rfl⟩ := mem_risingRows.1 hmem
          exact ⟨r, hr, .rising hb hpos
            (fun b' r' hr' hb' => nonneg_of_fallingRows hf hr' hb')
            fun b' r' hr' hb' hpos' =>
              hmin _ (mem_risingRows.2 ⟨r', hr', hb', hpos', rfl⟩)⟩
      | none =>
          rw [hrise] at h
          have hmem := List.mem_of_getLast? h
          obtain ⟨r, hr, hb, hne⟩ := mem_externalRows.1 hmem
          have hrise := Scalar.leastRatio_eq_none hrise
          exact ⟨r, hr, .external hb hne fun b' r' hr' hb' => le_antisymm
            (nonpos_of_risingRows hrise hr' hb')
            (nonneg_of_fallingRows hf hr' hb')⟩

/-- Where no row is found for a marker, none mentions it. -/
theorem coefficient_of_markerLeaving? (h : t.markerLeaving? m = none)
    {b : Symbol} {r : Row Rat} (hr : t.rows.get? b = some r) :
    r.coefficient m = 0 := by
  unfold markerLeaving? at h
  obtain ⟨hf, h⟩ := Option.or_eq_none_iff.1 h
  obtain ⟨hrise, hext⟩ := Option.or_eq_none_iff.1 h
  cases hb : b.isExternal with
  | false =>
      exact le_antisymm
        (nonpos_of_risingRows (Scalar.leastRatio_eq_none hrise) hr hb)
        (nonneg_of_fallingRows (Scalar.leastRatio_eq_none hf) hr hb)
  | true =>
      by_contra hne
      have hmem := mem_externalRows.2 ⟨r, hr, hb, hne⟩
      rw [List.getLast?_eq_none_iff.1 hext] at hmem
      cases hmem

-- ========================================================== elimination

/-- The second tableau is the first without a symbol: it has the solutions
that some value of the symbol completes to solutions of the first. -/
structure Eliminates (t : Tableau Rat) (m : Symbol) (t' : Tableau Rat) :
    Prop where
  canonical : t'.Canonical
  auxiliary : t.auxiliary = none → t'.auxiliary = none
  unused : ∀ {x}, t.Unused x → t'.Unused x
  eliminated : t'.Unused m
  solves : ∀ v, t'.Solves v ↔ ∃ a, t.Solves (update v m a)
  objective : ∀ v, t.Solves v →
    t'.objective.value v = t.objective.value v
  internal : t.Separated → ∀ {b r}, t'.rows.get? b = some r →
    b.isExternal = false → r.Internal
  stack : t.Separated → ∀ {x}, x ∈ t'.infeasible → x.isExternal = false

/-- A basic symbol that no row mentions is forgotten with its row: what
remains is solved wherever some value of the symbol solves the whole. -/
theorem solves_without_iff {r : Row Rat} (hr : t.rows.get? m = some r)
    (h0 : ∀ b d, t.rows.get? b = some d → d.coefficient m = 0)
    (v : Symbol → Rat) :
    (t.without m).Solves v ↔ ∃ a, t.Solves (update v m a) := by
  have hsame : ∀ (a : Rat) {b d}, (t.without m).rows.get? b = some d →
      (update v m a b = d.value (update v m a) ↔ v b = d.value v) := by
    intro a b d hd
    obtain ⟨hbm, hd⟩ := get?_of_without hd
    rw [Function.update_of_ne (Ne.symm hbm),
      Row.value_update_of_eq_zero (h0 b d hd)]
  constructor
  · intro hv
    -- the symbol takes the value that its row gives it
    refine ⟨r.value v, (solves_without hr).2 ⟨fun b d hd => ?_, ?_⟩⟩
    · exact (hsame _ hd).2 (hv b d hd)
    · rw [Function.update_self, Row.value_update_of_eq_zero (h0 m r hr)]
  · intro hvalue b d hd
    obtain ⟨a, hv⟩ := hvalue
    exact (hsame a hd).1 (((solves_without hr).1 hv).1 b d hd)

/-- Dropping the row of a basic symbol eliminates it. -/
private theorem eliminates_without (hc : t.Canonical) {r : Row Rat}
    (hr : t.rows.get? m = some r) : t.Eliminates m (t.without m) where
  canonical := hc.without m
  auxiliary := id
  unused := fun hx => hx.without m
  eliminated := ⟨fun hb => (isBasic_without.1 hb).1 rfl,
    fun hr' => hc.nonbasic hr'.of_without ⟨r, hr⟩⟩
  solves := solves_without_iff hr fun _ _ hd =>
    hc.nonbasic (.row hd) ⟨r, hr⟩
  objective := fun _ _ => rfl
  internal := fun hsep _ _ hr' hb => hsep.rows (get?_of_without hr').2 hb
  stack := fun hsep _ hx => hsep.stack hx

/-- Substituting a definition is installing it and dropping its row
again. -/
theorem without_install {s : Symbol} {d : Row Rat}
    (hs : ¬ t.IsBasic s) : (t.install s d).without s = t.substitute s d := by
  have hkeys : s ∉ (t.substitute s d).rows.keys := by
    rw [keys_substitute]
    exact fun h => hs (mem_keys_iff.1 h)
  have hrows : ((t.substitute s d).rows.insert s d).erase s
      = (t.substitute s d).rows := Table.erase_insert hkeys d
  unfold without install
  dsimp only
  rw [hrows]

/-- Where a symbol is outside the basis, it takes the place of a row that
mentions it and is dropped. -/
private theorem eliminates_substitute (hc : t.Canonical)
    (hm : m.isExternal = false) {b : Symbol} {r d : Row Rat}
    (hp : t.Pivot b m r d) (hrow : t.MarkerRow m b r) :
    t.Eliminates m ((t.without b).substitute m d) := by
  have heq := hp.equivalent hc
  have hnb : ¬ (t.without b).IsBasic m :=
    fun h => hp.not_basic hc (isBasic_without.1 h).2
  have hd : ((t.without b).install m d).rows.get? m = some d := by
    rw [get?_rows_install, if_pos rfl]
  have hel := eliminates_without heq.canonical hd
  rw [without_install hnb] at hel
  refine ⟨hel.canonical, fun h => ?_, fun hx => hel.unused (heq.unused hx),
    hel.eliminated, fun v => ?_, fun v hv => ?_,
    fun hsep {x r'} hr' hx => ?_,
    fun hsep _ hx => stack_substitute (hsep.without b).stack hx⟩
  · show t.auxiliary.map _ = none
    rw [h]
    rfl
  · rw [hel.solves]
    exact exists_congr fun a => heq.solves _
  · rw [hel.objective v ((heq.solves v).2 hv), heq.objective v hv]
  · obtain ⟨r₀, hr₀, rfl⟩ := row_of_substitute hr'
    have hr₀ := (get?_of_without hr₀).2
    have hint := hsep.rows hr₀ hx
    -- either the definition is internal or the row does not change
    have hcell : ∀ y, y.isExternal = true →
        r₀.coefficient m * d.coefficient y = 0 := by
      intro y hy
      cases hb : b.isExternal with
      | false => rw [hp.internal hc hsep hb y hy, mul_zero]
      | true =>
          cases hrow with
          | falling restricted => rw [hb] at restricted; cases restricted
          | rising restricted => rw [hb] at restricted; cases restricted
          | external _ _ none_moves =>
              rw [none_moves x r₀ hr₀ hx, zero_mul]
    intro y hy
    have hym : m ≠ y := (Symbol.ne_of_test hy hm).symm
    rw [Row.coefficient_substitute, hint y hy, Row.unit_of_ne hym,
      sub_zero, hcell y hy, add_zero]

/-- How a marker is dropped: with its own row, or after it has replaced
the symbol of the row chosen for it. -/
theorem dropMarker_eq_ok (h : t.dropMarker m = .ok t') :
    (t.IsBasic m ∧ t' = t.without m)
      ∨ ∃ b r d, t.MarkerRow m b r ∧ t.Pivot b m r d
          ∧ t' = (t.without b).substitute m d := by
  cases dropMarker_eq_iff.1 h with
  | basic row => exact Or.inl ⟨⟨_, row⟩, rfl⟩
  | @released b r d _ leaves leaving solved =>
      obtain ⟨r₁, hr₁, hrow⟩ := markerLeaving?_spec leaves
      obtain rfl := Option.some.inj (leaving.symm.trans hr₁)
      exact Or.inr ⟨b, r, d, hrow,
        ⟨leaving, hrow.coefficient_ne, solved⟩, rfl⟩

/-- Dropping a marker eliminates it. -/
theorem eliminates_of_dropMarker (hc : t.Canonical)
    (hm : m.isExternal = false) (h : t.dropMarker m = .ok t') :
    t.Eliminates m t' := by
  rcases dropMarker_eq_ok h with ⟨⟨r, hr⟩, rfl⟩ | ⟨b, r, d, hrow, hp, rfl⟩
  · exact eliminates_without hc hr
  · exact eliminates_substitute hc hm hp hrow

/-- Where the work on a marker fails for want of a row, the marker occurs
in none. -/
theorem coefficient_of_dropMarker
    (h : t.dropMarker m = .error .noMarkerLeavingRow) :
    ¬ t.IsBasic m
      ∧ ∀ b r, t.rows.get? b = some r → r.coefficient m = 0 := by
  cases dropMarker_eq_iff.1 h with
  | missing row leaves =>
      refine ⟨not_isBasic_iff.2 row, fun b r hr => ?_⟩
      exact coefficient_of_markerLeaving? leaves hr

/-- Where the objective that is left is monotone, external symbols stay
apart. -/
theorem Eliminates.separated (h : t.Eliminates m t')
    (hsep : t.Separated) (haux : t.auxiliary = none)
    (hmono : t'.Monotone t'.objective) : t'.Separated where
  rows := fun hr hb => h.internal hsep hr hb
  objective := hmono.internal h.canonical (fun hr hb => h.internal hsep hr hb)
    .objective
  auxiliary := by
    intro a ha
    rw [h.auxiliary haux] at ha
    cases ha
  stack := h.stack hsep

-- ========================================================= feasibility

/-- The constants of restricted rows stay above zero when a marker takes
the place of the row chosen for it. -/
private theorem constant_nonneg_of_markerRow (hm : ¬ t.IsBasic m)
    (hf : t.Feasible) {b : Symbol} {r d : Row Rat}
    (hp : t.Pivot b m r d) (hrow : t.MarkerRow m b r) {x : Symbol}
    {r' : Row Rat} (hr' : t.rows.get? x = some r')
    (hx : x.isExternal = false) :
    0 ≤ r'.constant + r'.coefficient m * d.constant := by
  have h' := hf x r' hr' hx
  rw [hp.constant hm]
  cases hrow with
  | falling restricted neg first =>
      have h₀ := hf b r hp.row restricted
      have hd : 0 ≤ -r.constant / r.coefficient m :=
        div_nonneg_of_nonpos (neg_nonpos.2 h₀) (le_of_lt neg)
      by_cases hr : 0 ≤ r'.coefficient m
      · exact add_nonneg h' (mul_nonneg hr hd)
      · have hr := not_le.1 hr
        have hq := first x r' hr' hx hr
        rw [le_div_iff_of_neg hr] at hq
        linarith
  | rising restricted pos none_falls first =>
      have hr := none_falls x r' hr' hx
      rw [neg_div]
      rcases eq_or_lt_of_le hr with hr | hr
      · rw [← hr, zero_mul, add_zero]
        exact h'
      · have hq := first x r' hr' hx hr
        rw [le_div_iff₀ hr] at hq
        linarith
  | external _ _ none_moves =>
      rw [none_moves x r' hr' hx, zero_mul, add_zero]
      exact h'

/-- A marker that takes the place of the row chosen for it, and whose own
row is dropped, leaves a feasible tableau feasible. -/
theorem MarkerRow.feasible (hm : ¬ t.IsBasic m) (hf : t.Feasible)
    {b : Symbol} {r d : Row Rat} (hp : t.Pivot b m r d)
    (hrow : t.MarkerRow m b r) :
    ((t.without b).substitute m d).Feasible := by
  intro x r' hr' hx
  obtain ⟨r₀, hr₀, rfl⟩ := row_of_substitute hr'
  rw [Row.constant_substitute]
  exact constant_nonneg_of_markerRow hm hf hp hrow
    (get?_of_without hr₀).2 hx

/-- Dropping a marker leaves a feasible tableau feasible. -/
theorem feasible_of_dropMarker (hc : t.Canonical) (hf : t.Feasible)
    (h : t.dropMarker m = .ok t') : t'.Feasible := by
  rcases dropMarker_eq_ok h with ⟨-, rfl⟩ | ⟨b, r, d, hrow, hp, rfl⟩
  · exact hf.without m
  · exact hrow.feasible (hp.not_basic hc) hf hp

/-- Dropping a marker leaves basic dummies idle. A dummy may be dropped
while the row of no other one mentions it. -/
theorem dummiesIdle_of_dropMarker (hd : t.DummiesIdle)
    (hguard : m.isDummy = true → ∀ x r, t.rows.get? x = some r →
      x.isDummy = true → r.coefficient m = 0)
    (h : t.dropMarker m = .ok t') : t'.DummiesIdle := by
  rcases dropMarker_eq_ok h with ⟨-, rfl⟩ | ⟨b, r, d, hrow, hp, rfl⟩
  · exact hd.without m
  · intro x r' hr' hx
    obtain ⟨r₀, hr₀, rfl⟩ := row_of_substitute hr'
    have hr₀ := (get?_of_without hr₀).2
    obtain ⟨hconst, hcells⟩ := hd x r₀ hr₀ hx
    -- an idle dummy's row mentions dummies only, and not this one
    have hm : r₀.coefficient m = 0 := by
      cases hdm : m.isDummy with
      | false => exact hcells m hdm
      | true => exact hguard hdm x r₀ hr₀ hx
    rw [Row.constant_substitute, hm, hconst]
    refine ⟨by ring, fun y hy => ?_⟩
    rw [Row.coefficient_substitute, hm, hcells y hy]
    ring

end LinearConstraints.Tableau
