/-
Equations: the row that a constraint is given, and what it says.

The terms of a constraint are added up over the tableau, new symbols are
made for variables that have none, and the row is closed by the symbols of
the constraint. What comes out is a row in symbols that are not basic
which is worth, at every solution of the tableau, the excess of the
expression plus the gap of the new symbols, up to its sign (`Poses`).

# Symbols

Symbols are numbered, and one whose number has not been given out occurs
nowhere in the tableau (`Grounded`). So a new symbol may take any value
without disturbing what the tableau says.

Main statements: `drafts_rowOf` and `poses_equation`.
-/
import LinearConstraints.Proofs.Balance
import LinearConstraints.Solver.Equation

namespace LinearConstraints

namespace Tableau

/-- Adding a symbol adds its value at every solution. -/
theorem value_addSymbol {t : Tableau Rat} {v : Symbol → Rat}
    (hv : t.Solves v) (r : Row Rat) (x : Symbol) (k : Rat) :
    (t.addSymbol r x k).value v = r.value v + v x * k := by
  unfold addSymbol
  cases hx : t.rows.get? x with
  | some d => rw [Row.value_addRow, ← hv x d hx]
  | none => rw [Row.value_addCell, mul_comm]

theorem reduced_addSymbol {r : Row Rat} (h : r.Reduced) (t : Tableau Rat)
    (x : Symbol) (k : Rat) : (t.addSymbol r x k).Reduced := by
  unfold addSymbol
  split
  · exact h.addRow _ k
  · exact h.addCell x k

/-- A symbol that occurs neither in the row nor in what is added does not
occur in the sum. -/
theorem coefficient_addSymbol_eq_zero {t : Tableau Rat}
    {r : Row Rat} {x y : Symbol} (k : Rat) (hr : r.coefficient y = 0)
    (hd : ∀ d, t.rows.get? x = some d → d.coefficient y = 0)
    (hne : t.rows.get? x = none → x ≠ y) :
    (t.addSymbol r x k).coefficient y = 0 := by
  unfold addSymbol
  cases hx : t.rows.get? x with
  | some d => rw [Row.coefficient_addRow, hr, hd d hx, zero_mul, add_zero]
  | none =>
      rw [Row.coefficient_addCell, hr, Row.unit_of_ne (hne hx), mul_zero,
        add_zero]

end Tableau

namespace Solver

variable {s s' s'' : Solver Rat}

-- ============================================================= reading

/-- The symbol that a variable is bound to. -/
def symbol? (s : Solver Rat) (x : Variable) : Option Symbol :=
  (s.bindings.get? x).map Binding.symbol

/-- The values that a valuation of the symbols gives to the variables,
zero to those that the solver has not seen. -/
def read (s : Solver Rat) (v : Symbol → Rat) (x : Variable) : Rat :=
  (s.symbol? x).elim 0 v

theorem read_of_symbol? {x : Variable} {y : Symbol}
    (h : s.symbol? x = some y) (v : Symbol → Rat) : s.read v x = v y := by
  unfold read
  rw [h]
  rfl

/-- Copying the solution is reading it. -/
theorem value_refresh (s : Solver Rat) :
    s.refresh.value = s.read s.tableau.solution := by
  funext x
  unfold value read symbol? refresh
  dsimp only
  rw [Table.get?_map]
  cases s.bindings.get? x <;> rfl

/-- A solver whose values have just been copied copies them again. -/
theorem value_refresh_refresh (s : Solver Rat) :
    s.refresh.refresh.value = s.refresh.value := by
  funext x
  unfold value refresh
  dsimp only
  rw [Table.get?_map, Table.get?_map]
  cases s.bindings.get? x <;> rfl

-- =========================================================== extension

/-- The solver with new symbols made and variables bound, or with another
tableau. -/
structure Extends (s s' : Solver Rat) : Prop where
  registry : s'.registry = s.registry
  edits : s'.edits = s.edits
  nextId : s.nextId ≤ s'.nextId
  bound : ∀ {x y}, s.symbol? x = some y → s'.symbol? x = some y

theorem Extends.refl (s : Solver Rat) : s.Extends s :=
  ⟨rfl, rfl, le_refl _, id⟩

theorem Extends.trans (h : s.Extends s') (h' : s'.Extends s'') :
    s.Extends s'' where
  registry := h'.registry.trans h.registry
  edits := h'.edits.trans h.edits
  nextId := le_trans h.nextId h'.nextId
  bound := fun hx => h'.bound (h.bound hx)

/-- Variables are bound to external symbols of their own. -/
structure WellBound (s : Solver Rat) : Prop where
  external : ∀ {x y}, s.symbol? x = some y → y.isExternal = true
  below : ∀ {x y}, s.symbol? x = some y → y.id < s.nextId
  injective : ∀ {x x' y}, s.symbol? x = some y → s.symbol? x' = some y →
    x = x'

/-- The tableau is canonical, and symbols whose number has not been given
out do not occur in it. -/
structure Grounded (s : Solver Rat) : Prop where
  canonical : s.tableau.Canonical
  fresh : ∀ {x}, s.nextId ≤ x.id → s.tableau.Unused x
  wellBound : s.WellBound

/-- The row is written in symbols that have been made and are not
basic. -/
structure Written (s : Solver Rat) (r : Row Rat) : Prop where
  reduced : r.Reduced
  nonbasic : ∀ x, s.tableau.IsBasic x → r.coefficient x = 0
  below : ∀ {x}, s.nextId ≤ x.id → r.coefficient x = 0

/-- More symbols may be made at any time. -/
theorem Grounded.extend (h : s.Grounded) (hx : s.Extends s')
    (ht : s'.tableau = s.tableau) (hw : s'.WellBound) : s'.Grounded where
  canonical := ht ▸ h.canonical
  fresh := fun hid => ht ▸ h.fresh (le_trans hx.nextId hid)
  wellBound := hw

theorem Written.extend {r : Row Rat} (h : s.Written r)
    (hx : s.Extends s') (ht : s'.tableau.rows = s.tableau.rows) :
    s'.Written r where
  reduced := h.reduced
  nonbasic := by
    intro x hbasic
    obtain ⟨d, hd⟩ := hbasic
    exact h.nonbasic x ⟨d, ht ▸ hd⟩
  below := fun hid => h.below (le_trans hx.nextId hid)

-- ============================================================= symbols

theorem extends_fresh (s : Solver Rat) (k : Symbol.Kind) :
    s.Extends (s.fresh k).2 :=
  ⟨rfl, rfl, Nat.le_succ _, id⟩

/-- The symbol of a variable is the one that it is bound to from then
on. -/
theorem symbolOf_spec (hw : s.WellBound) (x : Variable) :
    (s.symbolOf x).2.symbol? x = some (s.symbolOf x).1
      ∧ s.Extends (s.symbolOf x).2
      ∧ (s.symbolOf x).2.WellBound
      ∧ (s.symbolOf x).2.tableau = s.tableau := by
  unfold symbolOf
  cases hx : s.bindings.get? x with
  | some b =>
      refine ⟨?_, .refl s, hw, rfl⟩
      unfold symbol?
      rw [hx]
      rfl
  | none =>
      have hget : ∀ y, ({ (s.fresh .external).2 with
          bindings := (s.fresh .external).2.bindings.insert x
            ⟨(s.fresh .external).1, 0⟩ } : Solver Rat).symbol? y
          = if x = y then some (s.fresh .external).1 else s.symbol? y := by
        intro y
        unfold symbol?
        rw [Table.get?_insert]
        split <;> rfl
      have hold : ∀ {y z}, s.symbol? y = some z → x ≠ y := by
        intro y z hy heq
        subst heq
        unfold symbol? at hy
        rw [hx] at hy
        cases hy
      have hnew : ∀ {y}, s.symbol? y ≠ some (s.fresh .external).1 :=
        fun hy => lt_irrefl _ (hw.below hy)
      dsimp only
      refine ⟨by rw [hget, if_pos rfl],
        ⟨rfl, rfl, Nat.le_succ _, fun {y z} hy => ?_⟩,
        ⟨fun {y z} hy => ?_, fun {y z} hy => ?_, fun {y y' z} hy hy' => ?_⟩,
        rfl⟩
      · rw [hget, if_neg (hold hy), hy]
      · rw [hget] at hy
        split at hy
        · obtain rfl := Option.some.inj hy
          rfl
        · exact hw.external hy
      · rw [hget] at hy
        split at hy
        · obtain rfl := Option.some.inj hy
          exact Nat.lt_succ_self _
        · exact Nat.lt_succ_of_lt (hw.below hy)
      · rw [hget] at hy hy'
        split at hy
        case isTrue hxy =>
          split at hy'
          case isTrue hxy' => exact hxy.symm.trans hxy'
          · exact absurd (hy'.trans hy.symm) hnew
        · split at hy'
          · exact absurd (hy.trans hy'.symm) hnew
          · exact hw.injective hy hy'

-- ========================================================= adding terms

/-- A symbol that has been made may be added to a row. -/
theorem Written.addSymbol {r : Row Rat} (h : s.Written r)
    (hg : s.Grounded) {x : Symbol} (hx : x.id < s.nextId) (k : Rat) :
    s.Written (s.tableau.addSymbol r x k) where
  reduced := Tableau.reduced_addSymbol h.reduced _ x k
  nonbasic := by
    intro y hbasic
    obtain ⟨d', hd'⟩ := hbasic
    refine Tableau.coefficient_addSymbol_eq_zero k (h.nonbasic y ⟨d', hd'⟩)
      (fun d hd => hg.canonical.nonbasic (.row hd) ⟨d', hd'⟩) fun hnone => ?_
    intro heq
    subst heq
    rw [hnone] at hd'
    cases hd'
  below := by
    intro y hy
    refine Tableau.coefficient_addSymbol_eq_zero k (h.below hy)
      (fun d hd => (hg.fresh hy).coefficient (.row hd)) fun _ => ?_
    intro heq
    subst heq
    omega

/-- What adding terms to a row comes to: the solver has symbols for their
variables, and the row has gained their values. -/
structure Drafts (s : Solver Rat) (r : Row Rat) (terms : List (Term Rat))
    (r' : Row Rat) (s' : Solver Rat) : Prop where
  grounded : s'.Grounded
  written : s'.Written r'
  extend : s.Extends s'
  tableau : s'.tableau = s.tableau
  bound : ∀ t ∈ terms, t.coefficient ≠ 0 → ∃ y, s'.symbol? t.var = some y
  value : ∀ v, s.tableau.Solves v → r'.value v
    = terms.foldl (fun sum t => sum + t.valueAt (s'.read v t.var))
        (r.value v)

/-- Adding one term. -/
theorem drafts_addTerm {r : Row Rat} (hg : s.Grounded)
    (hr : s.Written r) (t : Term Rat) :
    s.Drafts r [t] (addTerm (r, s) t).1 (addTerm (r, s) t).2 := by
  unfold addTerm
  by_cases h0 : t.coefficient = 0
  · rw [if_pos (Scalar.nearZero_iff.2 h0)]
    refine ⟨hg, hr, .refl s, rfl, fun t' ht' hne => ?_, fun v _ => ?_⟩
    · rw [List.mem_singleton.1 ht'] at hne
      exact absurd h0 hne
    · show r.value v = r.value v + t.coefficient * _
      rw [h0, zero_mul, add_zero]
  · rw [if_neg fun h => h0 (Scalar.nearZero_iff.1 h)]
    obtain ⟨hsym, hext, hw, htab⟩ := symbolOf_spec hg.wellBound t.var
    have hg' := hg.extend hext htab hw
    have hr' := (hr.extend hext (congrArg Tableau.rows htab)).addSymbol hg'
      (hw.below hsym) t.coefficient
    refine ⟨hg', hr', hext, htab, fun t' ht' _ => ?_, fun v hv => ?_⟩
    · rw [List.mem_singleton.1 ht']
      exact ⟨_, hsym⟩
    · show (Tableau.addSymbol _ r _ t.coefficient).value v
        = r.value v + t.valueAt _
      rw [Tableau.value_addSymbol (htab ▸ hv), read_of_symbol? hsym]
      unfold Term.valueAt
      ring

/-- Adding terms one by one. -/
theorem drafts_foldl (terms : List (Term Rat)) :
    ∀ {s : Solver Rat} {r : Row Rat}, s.Grounded → s.Written r →
      s.Drafts r terms (terms.foldl addTerm (r, s)).1
        (terms.foldl addTerm (r, s)).2 := by
  induction terms with
  | nil =>
      intro s r hg hr
      exact ⟨hg, hr, .refl s, rfl, fun t ht => (by cases ht), fun _ _ => rfl⟩
  | cons t terms ih =>
      intro s r hg hr
      have h₁ := drafts_addTerm hg hr t
      have h₂ := ih h₁.grounded h₁.written
      rw [List.foldl_cons]
      refine ⟨h₂.grounded, h₂.written, h₁.extend.trans h₂.extend,
        h₂.tableau.trans h₁.tableau, fun t' ht' hne => ?_, fun v hv => ?_⟩
      · rcases List.mem_cons.1 ht' with rfl | ht'
        · obtain ⟨y, hy⟩ := h₁.bound t' (List.mem_singleton.2 rfl) hne
          exact ⟨y, h₂.extend.bound hy⟩
        · exact h₂.bound t' ht' hne
      · -- a variable once bound is read the same from then on
        have hread : t.valueAt ((addTerm (r, s) t).2.read v t.var)
            = t.valueAt ((terms.foldl addTerm (addTerm (r, s) t)).2.read v
                t.var) := by
          unfold Term.valueAt
          by_cases h0 : t.coefficient = 0
          · rw [h0, zero_mul, zero_mul]
          · obtain ⟨y, hy⟩ := h₁.bound t (List.mem_singleton.2 rfl) h0
            rw [read_of_symbol? hy, read_of_symbol? (h₂.extend.bound hy)]
        rw [h₂.value v (h₁.tableau ▸ hv), h₁.value v hv, List.foldl_cons,
          List.foldl_cons, List.foldl_nil, hread]

/-- The row of an expression is worth what the expression is. -/
theorem drafts_rowOf (hg : s.Grounded) (e : Expression Rat) :
    s.Drafts (.ofConstant e.constant) e.terms (s.rowOf e).1
      (s.rowOf e).2 :=
  drafts_foldl e.terms hg ⟨Row.reduced_ofConstant _,
    fun x _ => Row.coefficient_ofConstant _ x,
    fun _ => Row.coefficient_ofConstant _ _⟩

-- ============================================================= closing

/-- What closing a row comes to: the footprint's symbols are new and fit
the constraint, the row has gained their gap, and the objective the weight
of their errors. -/
structure Closes (s : Solver Rat) (c : Constraint Rat) (r r' : Row Rat)
    (f : Footprint) (s' : Solver Rat) : Prop where
  fits : c.Fits f
  apart : f.companion ≠ some f.marker
  made : ∀ {x}, f.Mentions x → s.nextId ≤ x.id ∧ x.id < s'.nextId
  extend : s.Extends s'
  bindings : s'.bindings = s.bindings
  tableau : s'.tableau = s.tableau.withObjective s'.tableau.objective
  objective : ∀ v, s'.tableau.objective.value v
    = s.tableau.objective.value v + c.strength.value * f.errors v
  reduced_objective : s.tableau.objective.Reduced →
    s'.tableau.objective.Reduced
  reduced : r.Reduced → r'.Reduced
  value : ∀ v, r'.value v = r.value v + c.sign * f.gap v

/-- Closing an inequality. -/
theorem closes_inequality {c : Constraint Rat}
    (hrel : c.relation ≠ .equal) (s : Solver Rat) (r : Row Rat) :
    s.Closes c r (s.closeInequality r c.sign c.strength).1
      (s.closeInequality r c.sign c.strength).2.1
      (s.closeInequality r c.sign c.strength).2.2 := by
  unfold closeInequality
  dsimp only [fresh]
  cases hreq : c.strength.isRequired with
  | true =>
      rw [if_pos rfl]
      refine ⟨.slack hrel hreq rfl rfl, (fun h => by cases h),
        fun {x} hx => ?_, extends_fresh s .slack, rfl, rfl, fun v => ?_, id,
        fun h => h.addCell _ _, fun v => ?_⟩
      · rcases hx with rfl | hx
        · exact ⟨le_refl _, Nat.lt_succ_self _⟩
        · cases hx
      · show s.tableau.objective.value v = _ + _ * (0 + 0)
        ring
      · show (r.addCell _ c.sign).value v = _ + _ * (v _ - 0)
        rw [Row.value_addCell]
        ring
  | false =>
      rw [if_neg Bool.false_ne_true]
      refine ⟨.slackened _ hrel hreq rfl rfl rfl, (fun h => by cases h),
        fun {x} hx => ?_, ⟨rfl, rfl, Nat.le_add_right s.nextId 2, id⟩, rfl,
        rfl, fun v => ?_, fun h => h.addCell _ _,
        fun h => (h.addCell _ _).addCell _ _, fun v => ?_⟩
      · rcases hx with rfl | hx
        · exact ⟨le_refl _, Nat.lt_succ_of_lt (Nat.lt_succ_self _)⟩
        · obtain rfl := Option.some.inj hx
          exact ⟨Nat.le_succ _, Nat.lt_succ_self _⟩
      · show (s.tableau.objective.addCell _ c.strength.value).value v
          = _ + _ * (0 + v _)
        rw [Row.value_addCell]
        ring
      · show ((r.addCell _ c.sign).addCell _ (-c.sign)).value v
          = _ + _ * (v _ - v _)
        rw [Row.value_addCell, Row.value_addCell]
        ring

/-- Closing an equality. -/
theorem closes_equality {c : Constraint Rat} (hrel : c.relation = .equal)
    (s : Solver Rat) (r : Row Rat) :
    s.Closes c r (s.closeEquality r c.strength).1
      (s.closeEquality r c.strength).2.1
      (s.closeEquality r c.strength).2.2 := by
  have hsign : c.sign = if c.strength.isRequired = true then 1 else -1 := by
    unfold Constraint.sign
    rw [hrel]
  unfold closeEquality
  dsimp only [fresh]
  cases hreq : c.strength.isRequired with
  | true =>
      rw [hreq, if_pos rfl] at hsign
      rw [if_pos rfl]
      refine ⟨.dummy hrel hreq rfl rfl, (fun h => by cases h),
        fun {x} hx => ?_, extends_fresh s .dummy, rfl, rfl, fun v => ?_, id,
        fun h => h.addCell _ _, fun v => ?_⟩
      · rcases hx with rfl | hx
        · exact ⟨le_refl _, Nat.lt_succ_self _⟩
        · cases hx
      · show s.tableau.objective.value v = _ + _ * (0 + 0)
        ring
      · show (r.addCell _ 1).value v = _ + _ * (v _ - 0)
        rw [Row.value_addCell, hsign]
        ring
  | false =>
      rw [hreq, if_neg Bool.false_ne_true] at hsign
      rw [if_neg Bool.false_ne_true]
      refine ⟨.errors _ hrel hreq rfl rfl rfl, fun h => ?_,
        fun {x} hx => ?_, ⟨rfl, rfl, Nat.le_add_right s.nextId 2, id⟩, rfl,
        rfl, fun v => ?_, fun h => (h.addCell _ _).addCell _ _,
        fun h => (h.addCell _ _).addCell _ _, fun v => ?_⟩
      · have h := congrArg Symbol.id (Option.some.inj h)
        exact absurd h (Nat.succ_ne_self s.nextId)
      · rcases hx with rfl | hx
        · exact ⟨le_refl _, Nat.lt_succ_of_lt (Nat.lt_succ_self _)⟩
        · obtain rfl := Option.some.inj hx
          exact ⟨Nat.le_succ _, Nat.lt_succ_self _⟩
      · show ((s.tableau.objective.addCell _ c.strength.value).addCell _
            c.strength.value).value v = _ + _ * (v _ + v _)
        rw [Row.value_addCell, Row.value_addCell]
        ring
      · show ((r.addCell _ (-1)).addCell _ 1).value v = _ + _ * (v _ - v _)
        rw [Row.value_addCell, Row.value_addCell, hsign]
        ring

-- ======================================================== the equation

/-- What posing a constraint comes to: a row that is zero, at a solution
of the tableau, exactly where the constraint is balanced at zero. -/
structure Poses (s : Solver Rat) (c : Constraint Rat) (r : Row Rat)
    (f : Footprint) (s' : Solver Rat) : Prop where
  fits : c.Fits f
  apart : f.companion ≠ some f.marker
  made : ∀ {x}, f.Mentions x → s.nextId ≤ x.id ∧ x.id < s'.nextId
  extend : s.Extends s'
  grounded : s'.Grounded
  tableau : s'.tableau = s.tableau.withObjective s'.tableau.objective
  objective : ∀ v, s'.tableau.objective.value v
    = s.tableau.objective.value v + c.strength.value * f.errors v
  separated : s.tableau.Separated → s'.tableau.Separated
  bound : ∀ t ∈ c.expression.terms, t.coefficient ≠ 0 →
    ∃ y, s'.symbol? t.var = some y
  written : s'.Written r
  constant : 0 ≤ r.constant
  value : ∃ k : Rat, (k = 1 ∨ k = -1)
    ∧ (∀ v, s.tableau.Solves v → r.value v
        = k * (c.expression.valueUnder (s'.read v) + c.sign * f.gap v))
    ∧ r.coefficient f.marker = k * c.sign
    ∧ ∀ y, f.companion = some y → r.coefficient y = -(k * c.sign)

section Close

variable {c : Constraint Rat} {r r' : Row Rat} {f : Footprint}

/-- Other symbols gain nothing by closing a row. -/
private theorem Closes.coefficient_of_not_mentions
    (h : s.Closes c r r' f s') {x : Symbol} (hx : ¬ f.Mentions x) :
    r'.coefficient x = r.coefficient x
      ∧ s'.tableau.objective.coefficient x
          = s.tableau.objective.coefficient x := by
  have h₁ := (Row.coefficient_of_value h.value
    (by rw [f.gap_zero, mul_zero])).2 x
  have h₂ := (Row.coefficient_of_value h.objective
    (by rw [f.errors_zero, mul_zero])).2 x
  rw [Footprint.gap_unit_of_not_mentions hx, mul_zero, add_zero] at h₁
  rw [Footprint.errors_unit_of_not_mentions hx, mul_zero, add_zero] at h₂
  exact ⟨h₁, h₂⟩

/-- Basic symbols are older than the footprint. -/
private theorem Closes.not_mentions_of_basic (h : s.Closes c r r' f s')
    (hg : s.Grounded) {x : Symbol} (hx : s.tableau.IsBasic x) :
    ¬ f.Mentions x :=
  fun hm => (hg.fresh (h.made hm).1).not_basic hx

private theorem Closes.grounded (h : s.Closes c r r' f s')
    (hg : s.Grounded) : s'.Grounded where
  canonical := by
    rw [h.tableau]
    refine hg.canonical.withObjective
      (h.reduced_objective (hg.canonical.reduced .objective)) fun x hx => ?_
    rw [(h.coefficient_of_not_mentions (h.not_mentions_of_basic hg hx)).2]
    exact hg.canonical.nonbasic .objective hx
  fresh := by
    intro x hx
    have hunused := hg.fresh (le_trans h.extend.nextId hx)
    rw [h.tableau]
    refine hunused.withObjective ?_
    rw [(h.coefficient_of_not_mentions fun hm => ?_).2]
    · exact hunused.coefficient .objective
    · exact absurd (h.made hm).2 (not_lt.2 hx)
  wellBound := by
    have hsym : ∀ x, s'.symbol? x = s.symbol? x := by
      intro x
      unfold symbol?
      rw [h.bindings]
    exact ⟨fun hx => hg.wellBound.external (hsym _ ▸ hx),
      fun hx => lt_of_lt_of_le (hg.wellBound.below (hsym _ ▸ hx))
        h.extend.nextId,
      fun hx hx' => hg.wellBound.injective (hsym _ ▸ hx) (hsym _ ▸ hx')⟩

private theorem Closes.written (h : s.Closes c r r' f s')
    (hg : s.Grounded) (hr : s.Written r) : s'.Written r' where
  reduced := h.reduced hr.reduced
  nonbasic := by
    intro x hbasic
    obtain ⟨d, hd⟩ := hbasic
    rw [h.tableau] at hd
    have hx : s.tableau.IsBasic x := ⟨d, hd⟩
    rw [(h.coefficient_of_not_mentions (h.not_mentions_of_basic hg hx)).1]
    exact hr.nonbasic x hx
  below := by
    intro x hx
    rw [(h.coefficient_of_not_mentions fun hm => ?_).1]
    · exact hr.below (le_trans h.extend.nextId hx)
    · exact absurd (h.made hm).2 (not_lt.2 hx)

private theorem Closes.separated (h : s.Closes c r r' f s')
    (hs : s.tableau.Separated) : s'.tableau.Separated := by
  rw [h.tableau]
  refine hs.withObjective fun x hx => ?_
  rw [(h.coefficient_of_not_mentions fun hm => ?_).2]
  · exact hs.objective x hx
  · rw [h.fits.not_external hm] at hx
    cases hx

/-- The symbols of the footprint stand in the row as in the gap. -/
private theorem Closes.coefficient_of_mentions (h : s.Closes c r r' f s')
    (hr : s.Written r) :
    r'.coefficient f.marker = c.sign
      ∧ ∀ y, f.companion = some y → r'.coefficient y = -c.sign := by
  have hcoef := (Row.coefficient_of_value h.value
    (by rw [f.gap_zero, mul_zero])).2
  refine ⟨?_, fun y hy => ?_⟩
  · rw [hcoef, hr.below (h.made (Or.inl rfl)).1,
      Footprint.gap_unit_marker h.apart, mul_one, zero_add]
  · rw [hcoef, hr.below (h.made (Or.inr hy)).1,
      Footprint.gap_unit_companion hy h.apart, mul_neg, mul_one, zero_add]

theorem Written.negated (h : s.Written r) : s.Written r.negated where
  reduced := h.reduced.negated
  nonbasic := fun x hx => by
    rw [Row.coefficient_negated, h.nonbasic x hx, neg_zero]
  below := fun hx => by
    rw [Row.coefficient_negated, h.below hx, neg_zero]

/-- A closed row, turned so that its constant is not negative, poses the
constraint. -/
private theorem poses_of_closes {r₀ r₁ : Row Rat} {s₀ : Solver Rat}
    (hd : s.Drafts (.ofConstant c.expression.constant)
      c.expression.terms r₀ s₀)
    (hc : s₀.Closes c r₀ r₁ f s') :
    s.Poses c (if r₁.constant < 0 then r₁.negated else r₁) f s' := by
  have hw := hc.written hd.grounded hd.written
  obtain ⟨hmarker, hcompanion⟩ := hc.coefficient_of_mentions hd.written
  have hread : ∀ v, s'.read v = s₀.read v := by
    intro v
    funext x
    unfold read symbol?
    rw [hc.bindings]
  have hvalue : ∀ v, s.tableau.Solves v → r₁.value v
      = c.expression.valueUnder (s'.read v) + c.sign * f.gap v := by
    intro v hv
    rw [hc.value, hd.value v hv, Row.value_ofConstant, hread]
    rfl
  refine ⟨hc.fits, hc.apart, fun hx => ?_, hd.extend.trans hc.extend,
    hc.grounded hd.grounded, ?_, fun v => ?_, fun hs => ?_,
    fun t ht hne => ?_, ?_, ?_, ?_⟩
  · exact ⟨le_trans hd.extend.nextId (hc.made hx).1, (hc.made hx).2⟩
  · rw [hc.tableau, hd.tableau]
    rfl
  · rw [hc.objective, hd.tableau]
  · exact hc.separated (hd.tableau ▸ hs)
  · obtain ⟨y, hy⟩ := hd.bound t ht hne
    exact ⟨y, hc.extend.bound hy⟩
  · split
    · exact hw.negated
    · exact hw
  · split
    case isTrue hneg => exact neg_nonneg.2 (le_of_lt hneg)
    case isFalse hpos => exact not_lt.1 hpos
  · split
    · refine ⟨-1, Or.inr rfl, fun v hv => ?_, ?_, fun y hy => ?_⟩
      · rw [Row.value_negated, hvalue v hv, neg_one_mul]
      · rw [Row.coefficient_negated, hmarker, neg_one_mul]
      · rw [Row.coefficient_negated, hcompanion y hy, neg_one_mul]
    · refine ⟨1, Or.inl rfl, fun v hv => ?_, ?_, fun y hy => ?_⟩
      · rw [hvalue v hv, one_mul]
      · rw [hmarker, one_mul]
      · rw [hcompanion y hy, one_mul]

end Close

/-- The equation of a constraint poses it. -/
theorem poses_equation (hg : s.Grounded) (c : Constraint Rat) :
    s.Poses c (s.equation c).1 (s.equation c).2.1 (s.equation c).2.2 := by
  have hd := drafts_rowOf hg c.expression
  unfold equation
  dsimp only
  cases hrel : c.relation with
  | lessOrEqual =>
      have hsign : c.sign = 1 := by
        unfold Constraint.sign
        rw [hrel]
      have hne : c.relation ≠ .equal := by
        rw [hrel]
        exact fun h => by cases h
      have hc := closes_inequality hne (s.rowOf c.expression).2
        (s.rowOf c.expression).1
      rw [hsign] at hc
      exact poses_of_closes hd hc
  | greaterOrEqual =>
      have hsign : c.sign = -1 := by
        unfold Constraint.sign
        rw [hrel]
      have hne : c.relation ≠ .equal := by
        rw [hrel]
        exact fun h => by cases h
      have hc := closes_inequality hne (s.rowOf c.expression).2
        (s.rowOf c.expression).1
      rw [hsign] at hc
      exact poses_of_closes hd hc
  | equal =>
      have hc := closes_equality hrel (s.rowOf c.expression).2
        (s.rowOf c.expression).1
      exact poses_of_closes hd hc

end Solver

end LinearConstraints
