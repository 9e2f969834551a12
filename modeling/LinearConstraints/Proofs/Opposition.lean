/-
Opposition: the two symbols of a constraint pull against each other.

The marker and the companion of a constraint occur in its equation only,
as a difference. So both may be raised together at no cost to any row,
and this settles how the rows mention the two (`Opposed`), whatever has
been merged, pivoted and dropped to make the rows.

# Three branches that are one

A suggestion moves the constant of one row if the marker is basic, of one
row if the companion is, and of all rows that mention the marker if
neither is. In each case this is what scanning a whole column would do,
that of either symbol as long as it is outside the basis
(`get?_moveTarget`): the other rows do not mention the symbol.

# The targets in force

Where the constraint of an edit has been taken out behind its back, its
number may be in use again, but its symbols never are. So the targets are
looked up by symbols here (`aim`), and this holds with no care for edits.

Main statements: `Consistent.opposed`, `Transition.aimed` and
`Reachable.opposition`.
-/
import LinearConstraints.Proofs.Refinement
import LinearConstraints.Proofs.Tidy

namespace LinearConstraints

open Function (update)

namespace Tableau

variable {t : Tableau Rat} {x y b : Symbol} {r : Row Rat} {k : Rat}

-- ============================================================ opposition

/-- Where the first symbol is basic, the second occurs in its row and in
no other, with the coefficient one. -/
structure Answers (t : Tableau Rat) (x y : Symbol) : Prop where
  own : ∀ {r}, t.rows.get? x = some r → r.coefficient y = 1
  others : t.IsBasic x → ∀ {b r}, b ≠ x → t.rows.get? b = some r →
    y ∉ r.symbols

/-- The rows mention the two symbols as the negatives of each other. -/
structure Opposed (t : Tableau Rat) (x y : Symbol) : Prop where
  not_both : ¬ (t.IsBasic x ∧ t.IsBasic y)
  first : t.Answers x y
  second : t.Answers y x
  opposite : ¬ t.IsBasic x → ¬ t.IsBasic y →
    ∀ {b r}, t.rows.get? b = some r → r.coefficient x = -r.coefficient y

/-- Both symbols may be raised together at no cost. -/
def MovesAsOne (t : Tableau Rat) (x y : Symbol) : Prop :=
  ∀ v, t.Solves v → t.Solves (update (update v x (v x + 1)) y (v y + 1))

/-- Of two symbols that move as one, a row gains by their coefficients
what its own symbol gains. -/
theorem MovesAsOne.coefficient_add (h : t.MovesAsOne x y) (hne : y ≠ x)
    (hc : t.Canonical) (hr : t.rows.get? b = some r) :
    r.coefficient x + r.coefficient y = Row.unit x b + Row.unit y b := by
  have hv := hc.solves_solution
  have hmoved := h _ hv b r hr
  have hold := hv b r hr
  rw [← Function.update_of_ne hne (t.solution x + 1) t.solution,
    Row.update_add, Row.update_add, Row.value_update, Row.value_update,
    hold] at hmoved
  linarith

/-- The symbol whose row gains is not the one that it is raised by. -/
private theorem MovesAsOne.answers (h : t.MovesAsOne x y) (hne : y ≠ x)
    (hc : t.Canonical) (hy : t.IsBasic x → ¬ t.IsBasic y) :
    t.Answers x y where
  own := by
    intro r hr
    have hadd := h.coefficient_add hne hc hr
    rw [hc.nonbasic (.row hr) ⟨r, hr⟩, Row.unit_self,
      Row.unit_of_ne hne.symm] at hadd
    linarith
  others := by
    intro hx b r hbx hr hmem
    have hby : b ≠ y := ne_of_not_basic hr (hy hx)
    have hadd := h.coefficient_add hne hc hr
    rw [hc.nonbasic (.row hr) hx, Row.unit_of_ne hbx, Row.unit_of_ne hby,
      zero_add, zero_add] at hadd
    exact (hc.reduced (.row hr)).mem_symbols_iff.1 hmem hadd

theorem MovesAsOne.symm (h : t.MovesAsOne x y) (hne : y ≠ x) :
    t.MovesAsOne y x := by
  intro v hv
  rw [Function.update_comm hne]
  exact h v hv

/-- Symbols that move as one are opposed. -/
theorem MovesAsOne.opposed (h : t.MovesAsOne x y) (hne : y ≠ x)
    (hc : t.Canonical) : t.Opposed x y := by
  have hnot : ¬ (t.IsBasic x ∧ t.IsBasic y) := by
    intro hboth
    obtain ⟨⟨r, hr⟩, hy⟩ := hboth
    have hadd := h.coefficient_add hne hc hr
    rw [hc.nonbasic (.row hr) ⟨r, hr⟩, hc.nonbasic (.row hr) hy,
      Row.unit_self, Row.unit_of_ne hne.symm] at hadd
    norm_num at hadd
  refine ⟨hnot, h.answers hne hc fun hx hy => hnot ⟨hx, hy⟩,
    (h.symm hne).answers hne.symm hc fun hy hx => hnot ⟨hx, hy⟩,
    fun hx hy b r hr => ?_⟩
  have hbx : b ≠ x := ne_of_not_basic hr hx
  have hby : b ≠ y := ne_of_not_basic hr hy
  have hadd := h.coefficient_add hne hc hr
  rw [Row.unit_of_ne hbx, Row.unit_of_ne hby] at hadd
  linarith

-- ========================================================= the branches

/-- Moving a column shifts each row by its coefficient. -/
theorem get?_shiftColumn (hx : ¬ t.IsBasic x) (k : Rat) (b : Symbol) :
    (t.shiftColumn x k).rows.get? b
      = (t.rows.get? b).map fun r => r.shift (k * r.coefficient x) := by
  rw [(shifts_shiftColumn hx k).rows]
  cases hr : t.rows.get? b with
  | none => rfl
  | some r =>
      have hbx : b ≠ x := ne_of_not_basic hr hx
      rw [Option.map_some, Option.map_some, Row.unit_of_ne hbx, sub_zero]

/-- Moving the row of a basic symbol is moving the column of the symbol
that answers to it. -/
theorem Answers.get?_shiftRow (h : t.Answers x y) (hy : ¬ t.IsBasic y)
    (hr : t.rows.get? x = some r) (k : Rat) (b : Symbol) :
    (t.shiftRow x r k).rows.get? b = (t.shiftColumn y k).rows.get? b := by
  rw [get?_shiftColumn hy]
  show (t.rows.insert x (r.shift k)).get? b = _
  rw [Table.get?_insert]
  split
  case isTrue hxb =>
    rw [← hxb, hr, Option.map_some, h.own hr, mul_one]
  case isFalse hxb =>
    cases hd : t.rows.get? b with
    | none => rfl
    | some d =>
        have hcell : d.coefficient y = 0 := by
          by_contra hne
          exact h.others ⟨r, hr⟩ (Ne.symm hxb) hd
            (Row.mem_symbols_iff.2 ⟨_, Row.get?_of_coefficient_ne hne⟩)
        unfold Row.shift
        rw [Option.map_some, hcell, mul_zero, add_zero]

/-- Whichever branch moves a target, it does to the rows what moving the
column of the marker would do, or of the companion the other way, if that
symbol is outside the basis. -/
theorem Opposed.get?_moveTarget {f : Footprint} (h : t.Opposed f.marker y)
    (hy : f.companion = some y) {z : Symbol} {a : Rat}
    (hz : Solver.MovesAt f k z a) (hout : ¬ t.IsBasic z) (b : Symbol) :
    (t.moveTarget f k).rows.get? b = (t.shiftColumn z a).rows.get? b := by
  generalize ht' : t.moveTarget f k = t'
  rcases hz with ⟨rfl, rfl⟩ | ⟨hzy, rfl⟩
  · -- the marker is outside the basis
    cases moveTarget_eq_iff.1 ht' with
    | marker row => exact absurd ⟨_, row⟩ hout
    | companion _ second basic =>
        obtain rfl := Option.some.inj (hy.symm.trans second)
        exact h.second.get?_shiftRow hout basic _ b
    | column => rfl
  · -- the companion is
    obtain rfl := Option.some.inj (hy.symm.trans hzy)
    cases moveTarget_eq_iff.1 ht' with
    | marker row => exact h.first.get?_shiftRow hout row _ b
    | companion _ second basic =>
        obtain rfl := Option.some.inj (hy.symm.trans second)
        exact absurd ⟨_, basic⟩ hout
    | column row =>
        have hm := not_isBasic_iff.2 row
        rw [get?_shiftColumn hm, get?_shiftColumn hout]
        cases hd : t.rows.get? b with
        | none => rfl
        | some d =>
            rw [Option.map_some, Option.map_some, h.opposite hm hout hd]
            congr 2
            ring

end Tableau

/-- How far a suggested value is from the target before. -/
def Edit.delta (e : Edit Rat) (value : Rat) : Rat :=
  value - e.constraint.target

namespace Solver

variable {s s' : Solver Rat} {goal goal' : Nat → Rat}

-- ====================================================== in every solver

/-- The symbols of a registered constraint move as one. -/
theorem Consistent.movesAsOne (h : s.Consistent goal) {i : Nat}
    {g : Registration Rat} {y : Symbol} (hi : s.registry.get? i = some g)
    (hy : g.footprint.companion = some y) :
    s.tableau.MovesAsOne g.footprint.marker y := by
  have hreg := h.registered hi
  have hym : y ≠ g.footprint.marker := fun heq => hreg.apart (heq ▸ hy)
  have hm : g.footprint.Mentions g.footprint.marker := Or.inl rfl
  intro v hv
  refine (h.solves _).2 fun j g' hj => ?_
  have hb := (h.solves v).1 hv j g' hj
  have hgap : g'.footprint.gap (Row.unit g.footprint.marker)
      + g'.footprint.gap (Row.unit y) = 0 := by
    by_cases hij : i = j
    · subst hij
      obtain rfl := Option.some.inj (hi.symm.trans hj)
      rw [Footprint.gap_unit_marker hreg.apart,
        Footprint.gap_unit_companion hy hreg.apart]
      norm_num
    · have hout : ∀ x, g.footprint.Mentions x →
          g'.footprint.gap (Row.unit x) = 0 := fun x hx =>
        Footprint.gap_unit_of_not_mentions fun hx' =>
          hij (h.disjoint hi hj hx hx')
      rw [hout _ hm, hout y (Or.inr hy), add_zero]
  unfold Registration.Balanced at hb ⊢
  rw [read_update h.wellBound (hreg.fits.not_external (Or.inr hy)),
    read_update h.wellBound (hreg.fits.not_external hm),
    ← Function.update_of_ne hym (v g.footprint.marker + 1) v,
    Footprint.gap_update, Footprint.gap_update, one_mul, one_mul,
    add_assoc, hgap, add_zero]
  exact hb

/-- The symbols of a registered constraint are opposed. -/
theorem Consistent.opposed (h : s.Consistent goal) {i : Nat}
    {g : Registration Rat} {y : Symbol} (hi : s.registry.get? i = some g)
    (hy : g.footprint.companion = some y) :
    s.tableau.Opposed g.footprint.marker y :=
  (h.movesAsOne hi hy).opposed
    (fun heq => (h.registered hi).apart (heq ▸ hy)) h.canonical

-- ===================================================== targets in force

/-- The target in force for the constraint with a number: that of the
edit that has its symbols, zero if none has. -/
def aim (s : Solver Rat) (i : Nat) : Rat :=
  (s.registry.get? i).elim 0 fun g =>
    (s.edits.values.find? fun e => e.footprint = g.footprint).elim 0
      fun e => e.constraint.target

/-- The goals are the targets of the edits with the same symbols. Of an
edit whose symbols are in use the constraint sits at its number. -/
structure Aimed (s : Solver Rat) (goal : Nat → Rat) : Prop where
  key : ∀ {x e i g}, s.edits.get? x = some e → s.registry.get? i = some g →
    g.footprint = e.footprint → i = e.key
  apart : ∀ {x y e f}, s.edits.get? x = some e → s.edits.get? y = some f →
    e.footprint = f.footprint → x = y
  target : ∀ {x e i g}, s.edits.get? x = some e →
    s.registry.get? i = some g → g.footprint = e.footprint →
    goal i = e.constraint.target
  zero : ∀ {i g}, s.registry.get? i = some g →
    (∀ x e, s.edits.get? x = some e → g.footprint ≠ e.footprint) →
    goal i = 0

/-- The target in force is the goal. -/
theorem Aimed.aim_eq (h : s.Aimed goal) {i : Nat} {g : Registration Rat}
    (hi : s.registry.get? i = some g) : s.aim i = goal i := by
  unfold aim
  rw [hi, Option.elim_some]
  cases hfind : s.edits.values.find? fun e => e.footprint = g.footprint with
  | some e =>
      obtain ⟨x, he⟩ := mem_edits_values_iff.1
        (List.mem_of_find?_eq_some hfind)
      have htest := List.find?_some hfind
      exact (h.target he hi (of_decide_eq_true htest).symm).symm
  | none =>
      refine (h.zero hi fun x e he hf => ?_).symm
      exact List.find?_eq_none.1 hfind e
        (mem_edits_values_iff.2 ⟨x, he⟩) (decide_eq_true hf.symm)

theorem aimed_empty (goal : Nat → Rat) :
    (empty : Solver Rat).Aimed goal where
  key := fun h => by cases h
  apart := fun h => by cases h
  target := fun h => by cases h
  zero := fun h => by cases h

/-- A constraint that has just been registered has new symbols. -/
theorem Registered.footprint_ne {c : Constraint Rat} {f : Footprint}
    (h : s.Registered c f s' goal) (hcons : s.Consistent goal)
    {x : Variable} {e : Edit Rat} (hx : s.edits.get? x = some e) :
    f ≠ e.footprint := by
  intro hf
  have hnew : s.nextId ≤ f.marker.id := h.made (Or.inl rfl)
  have hold := (hcons.edits hx).below (Or.inl rfl)
  rw [← hf] at hold
  exact absurd hold (Nat.not_lt.2 hnew)

theorem Aimed.register (h : s.Aimed goal) (hcons : s.Consistent goal)
    {c : Constraint Rat} {f : Footprint} (hr : s.Registered c f s' goal) :
    s'.Aimed (update goal c.id 0) := by
  have hget : ∀ {i g}, s'.registry.get? i = some g →
      (i = c.id ∧ g.footprint = f)
        ∨ i ≠ c.id ∧ s.registry.get? i = some g := by
    intro i g hi
    rw [hr.registry, Table.get?_insert] at hi
    split at hi
    case isTrue hid =>
      exact Or.inl ⟨hid.symm, by rw [← Option.some.inj hi]⟩
    case isFalse hid => exact Or.inr ⟨Ne.symm hid, hi⟩
  have hne := fun {x e} (hx : s'.edits.get? x = some e) =>
    hr.footprint_ne hcons (hr.edits ▸ hx)
  refine ⟨fun hx hi hf => ?_, fun hx hy => h.apart (hr.edits ▸ hx)
    (hr.edits ▸ hy), fun hx hi hf => ?_, fun {i g} hi hall => ?_⟩
  · rcases hget hi with ⟨-, hg⟩ | ⟨-, hi⟩
    · exact absurd (hg.symm.trans hf) (hne hx)
    · exact h.key (hr.edits ▸ hx) hi hf
  · rcases hget hi with ⟨-, hg⟩ | ⟨hid, hi⟩
    · exact absurd (hg.symm.trans hf) (hne hx)
    · rw [Function.update_of_ne hid]
      exact h.target (hr.edits ▸ hx) hi hf
  · rcases hget hi with ⟨rfl, -⟩ | ⟨hid, hi⟩
    · exact Function.update_self ..
    · rw [Function.update_of_ne hid]
      exact h.zero hi fun x e hx => hall x e (hr.edits ▸ hx)

/-- An edit whose constraint has just been registered. -/
theorem Aimed.withEdit (h : s.Aimed goal) (ho : s.Orderly) {x : Variable}
    {e : Edit Rat} {g : Registration Rat} (hx : s.edits.get? x = none)
    (hg : s.registry.get? e.key = some g) (hf : g.footprint = e.footprint)
    (hfree : ∀ {y k}, s.edits.get? y = some k →
      e.footprint ≠ k.footprint)
    (hgoal : goal e.key = e.constraint.target) :
    (s.withEdit x e).Aimed goal := by
  have hget : ∀ {y k}, (s.withEdit x e).edits.get? y = some k →
      (y = x ∧ k = e) ∨ s.edits.get? y = some k := by
    intro y k hy
    have hy : (s.edits.insert x e).get? y = some k := hy
    rw [Table.get?_insert] at hy
    split at hy
    case isTrue hxy => exact Or.inl ⟨hxy.symm, (Option.some.inj hy).symm⟩
    case isFalse => exact Or.inr hy
  have hkey : ∀ {i g'}, s.registry.get? i = some g' →
      g'.footprint = e.footprint → i = e.key := by
    intro i g' hi hf'
    refine ho.disjoint hi hg (Or.inl rfl) ?_
    rw [hf, ← hf']
    exact Or.inl rfl
  refine ⟨fun hy hi hf' => ?_, fun hy hz hff => ?_, fun hy hi hf' => ?_,
    fun {i g'} hi hall => ?_⟩
  · rcases hget hy with ⟨-, rfl⟩ | hy
    · exact hkey hi hf'
    · exact h.key hy hi hf'
  · rcases hget hy with ⟨hyx, hye⟩ | hy
    · rcases hget hz with ⟨hzx, -⟩ | hz
      · exact hyx.trans hzx.symm
      · exact absurd (hye ▸ hff) (hfree hz)
    · rcases hget hz with ⟨-, hze⟩ | hz
      · exact absurd (hze ▸ hff).symm (hfree hy)
      · exact h.apart hy hz hff
  · rcases hget hy with ⟨-, rfl⟩ | hy
    · rw [hkey hi hf', hgoal]
    · exact h.target hy hi hf'
  · refine h.zero hi fun y k hy => hall y k ?_
    show (s.edits.insert x e).get? y = some k
    rw [Table.get?_insert, if_neg (Table.ne_of_get? hy hx).symm, hy]

/-- A constraint removed, and with it no edit but at most its own. -/
theorem Aimed.unregister (h : s.Aimed goal) {i : Nat}
    (hr : s'.registry = s.registry.erase i)
    (hsub : ∀ {x e}, s'.edits.get? x = some e → s.edits.get? x = some e)
    (hrest : ∀ {x e}, s.edits.get? x = some e → e.key ≠ i →
      s'.edits.get? x = some e) : s'.Aimed goal := by
  have hget : ∀ {j g}, s'.registry.get? j = some g →
      i ≠ j ∧ s.registry.get? j = some g := by
    intro j g hj
    rw [hr, Table.get?_erase] at hj
    split at hj
    · cases hj
    case isFalse hij => exact ⟨hij, hj⟩
  refine ⟨fun hx hj => h.key (hsub hx) (hget hj).2,
    fun hx hy => h.apart (hsub hx) (hsub hy),
    fun hx hj => h.target (hsub hx) (hget hj).2, fun {j g} hj hall => ?_⟩
  obtain ⟨hij, hj⟩ := hget hj
  refine h.zero hj fun x e hx hf => ?_
  have hkey := h.key hx hj hf
  exact hall x e (hrest hx fun heq => hij (heq.symm.trans hkey.symm)) hf

/-- A suggestion moves the goal with the symbols of the edit to its new
target, and no other. -/
theorem Aimed.suggest (h : s.Aimed goal) {x : Variable} {e : Edit Rat}
    {value : Rat} (hx : s.edits.get? x = some e)
    (hsug : s.Suggested x e value s' goal) :
    s'.Aimed
      (s.movedGoal e.footprint (value - e.constraint.target) goal) := by
  have hget : ∀ {y k}, s'.edits.get? y = some k →
      ∃ k', s.edits.get? y = some k' ∧ k'.footprint = k.footprint
        ∧ k'.key = k.key
        ∧ (y = x ∧ k.constraint.target = value
          ∨ y ≠ x ∧ k = k') := by
    intro y k hy
    rw [hsug.edits, Table.get?_insert] at hy
    split at hy
    case isTrue hxy =>
      obtain rfl := Option.some.inj hy
      exact ⟨e, hxy ▸ hx, rfl, rfl, Or.inl ⟨hxy.symm, rfl⟩⟩
    case isFalse hxy => exact ⟨k, hy, rfl, rfl, Or.inr ⟨Ne.symm hxy, rfl⟩⟩
  refine ⟨fun hy hi hf => ?_, fun hy hz hff => ?_, fun hy hi hf => ?_,
    fun {i g} hi hall => ?_⟩
  · obtain ⟨k', hy, hkf, hkk, -⟩ := hget hy
    exact (h.key hy (hsug.registry ▸ hi) (hf.trans hkf.symm)).trans hkk
  · obtain ⟨k', hy, hkf, -⟩ := hget hy
    obtain ⟨l', hz, hlf, -⟩ := hget hz
    exact h.apart hy hz (hkf.trans (hff.trans hlf.symm))
  · rw [hsug.registry] at hi
    obtain ⟨k', hy, hkf, -, ⟨rfl, hvalue⟩ | ⟨hyx, rfl⟩⟩ := hget hy
    · obtain rfl := Option.some.inj (hx.symm.trans hy)
      rw [movedGoal_of_get? hi, if_pos (hf.trans hkf.symm),
        h.target hx hi (hf.trans hkf.symm), hvalue]
      ring
    · rw [movedGoal_of_get? hi, if_neg, h.target hy hi hf]
      exact fun hfe => hyx (h.apart hy hx (hf.symm.trans hfe))
  · rw [hsug.registry] at hi
    have hold : ∀ y k, s.edits.get? y = some k →
        g.footprint ≠ k.footprint := by
      intro y k hy hf
      by_cases hxy : x = y
      · subst hxy
        obtain rfl := Option.some.inj (hx.symm.trans hy)
        refine hall x { e with constraint := e.constraint.suggest value }
          ?_ hf
        rw [hsug.edits, Table.get?_insert, if_pos rfl]
      · refine hall y k ?_ hf
        rw [hsug.edits, Table.get?_insert, if_neg hxy, hy]
    rw [movedGoal_of_get? hi, if_neg (hold x e hx)]
    exact h.zero hi hold

/-- Transitions keep the goals at the targets in force. -/
theorem Transition.aimed {c : Command Rat} (hcons : s.Consistent goal)
    (h : s.Aimed goal) (ht : Transition s goal c s' goal') :
    s'.Aimed goal' := by
  cases ht with
  | idle extend =>
      have hr := extend.registry
      have he := extend.edits
      exact ⟨fun hx hi => h.key (he ▸ hx) (hr ▸ hi),
        fun hx hy => h.apart (he ▸ hx) (he ▸ hy),
        fun hx hi => h.target (he ▸ hx) (hr ▸ hi),
        fun hi hall => h.zero (hr ▸ hi) (he ▸ hall)⟩
  | added hreg => exact h.register hcons hreg
  | removed _ hrem =>
      exact h.unregister hrem.registry (fun hx => hrem.edits ▸ hx)
        fun hx _ => by rw [hrem.edits, hx]
  | @edited id x strength f s₁ new _ hreg =>
      refine (h.register hcons hreg).withEdit hreg.consistent.toOrderly
        (g := ⟨(EditConstraint.new id x strength).constraint, f⟩)
        (by rw [hreg.edits, new]) ?_ rfl (fun hy => ?_)
        (Function.update_self ..)
      · rw [hreg.registry]
        exact (Table.get?_insert ..).trans (if_pos rfl)
      · exact hreg.footprint_ne hcons (hreg.edits ▸ hy)
  | @released x e g s₁ tracked _ hrem =>
      have hget : ∀ y, (s₁.withoutEdit x).edits.get? y
          = if x = y then none else s.edits.get? y := by
        intro y
        rw [← hrem.edits]
        exact Table.get?_erase ..
      refine h.unregister hrem.registry (fun {y k} hy => ?_)
        fun {y k} hy hne => ?_
      · rw [hget] at hy
        split at hy
        · cases hy
        · exact hy
      · rw [hget, if_neg, hy]
        intro heq
        subst heq
        obtain rfl := Option.some.inj (tracked.symm.trans hy)
        exact hne rfl
  | suggested tracked hsug => exact h.suggest tracked hsug
  | reset => exact aimed_empty goal

-- ====================================================== every state

/-- The valuation satisfies the defining equation of every registered
constraint, whose expression is compared with its aim. -/
def Satisfies (s : Solver Rat) (aim : Nat → Rat) (v : Symbol → Rat) :
    Prop :=
  ∀ i g, s.registry.get? i = some g → g.Equation
    (g.constraint.expression.valueUnder (s.read v) - aim i) v

theorem Orderly.satisfies_iff (h : s.Orderly) {aim : Nat → Rat}
    (heq : ∀ {i g}, s.registry.get? i = some g → aim i = goal i)
    (v : Symbol → Rat) : s.Satisfies aim v ↔ s.Balances goal v := by
  refine forall_congr' fun i => forall_congr' fun g =>
    forall_congr' fun hi => ?_
  rw [heq hi]
  exact Registration.equation_iff_balanced (h.registered hi).fits _ _ v

/-- In every state that commands lead to, the two symbols of a constraint
are opposed, and the rows are solved by what satisfies the defining
equations with the targets in force. So a suggestion for an edit whose
constraint is registered, with the symbols that the edit remembers, may
move the column of either symbol that is outside the basis: the branch
that it takes does the same to the rows, and their solutions become those
with the suggested value in place of the target of the edit. -/
theorem Reachable.opposition
    (h : Reachable (fun _ c => Command.Built c) s) :
    (∀ i g y, s.registry.get? i = some g →
        g.footprint.companion = some y →
        s.tableau.Opposed g.footprint.marker y)
      ∧ (∀ v, s.tableau.Solves v ↔ s.Satisfies s.aim v)
      ∧ ∀ x e, s.edits.get? x = some e →
          s.registry.get? e.key
            = some ⟨e.constraint.constraint, e.footprint⟩ →
          s.aim e.key = e.constraint.target ∧ ∀ value,
            (∀ z a b, MovesAt e.footprint (e.delta value) z a →
                ¬ s.tableau.IsBasic z →
                (s.tableau.moveTarget e.footprint
                    (e.delta value)).rows.get? b
                  = (s.tableau.shiftColumn z a).rows.get? b)
              ∧ ∀ v, (s.tableau.moveTarget e.footprint
                    (e.delta value)).Solves v
                  ↔ s.Satisfies (update s.aim e.key value) v := by
  obtain ⟨goal, hcons, haim⟩ := h.induction (P := Aimed)
    (fun _ _ may => may) (aimed_empty _)
    fun _ hc ht haim => ht.aimed hc haim
  refine ⟨fun i g y hi hy => hcons.opposed hi hy, fun v => ?_,
    fun x e hx hi => ⟨?_, fun value => ?_⟩⟩
  · rw [hcons.solves, hcons.toOrderly.satisfies_iff haim.aim_eq]
  · rw [haim.aim_eq hi]
    exact haim.target hx hi rfl
  · have htracks := hcons.edits hx
    obtain ⟨y, hy, -⟩ := htracks.companion
    refine ⟨fun z a b hz hout =>
      (hcons.opposed hi hy).get?_moveTarget hy hz hout b, fun v => ?_⟩
    obtain ⟨z, a, hz, hshift⟩ :=
      htracks.shifts hcons.canonical (e.delta value)
    rw [hshift.solves, hcons.solves,
      htracks.balances_update hcons.toOrderly hz,
      hcons.toOrderly.satisfies_iff fun {j g} hj => ?_]
    -- only the constraint of the edit has its symbols
    rw [movedGoal_of_get? hj]
    by_cases hjk : j = e.key
    · subst hjk
      obtain rfl := Option.some.inj (hi.symm.trans hj)
      rw [Function.update_self, if_pos rfl, haim.target hx hi rfl]
      exact (add_sub_cancel e.constraint.target value).symm
    · rw [Function.update_of_ne hjk, if_neg, haim.aim_eq hj]
      exact fun hf => hjk (haim.key hx hj hf)

/-- The slider that has been pulled past its end, pulled back to five: its
error above is outside the basis, so that the row of the one below is
moved. -/
theorem pulledSlider_opposition :
    Reachable (fun _ c => Command.Built c) pulledSlider
      ∧ (∀ g ∈ pulledSlider.registry.get? 3,
          ∀ y ∈ g.footprint.companion,
          pulledSlider.tableau.Opposed g.footprint.marker y)
      ∧ ∀ e ∈ pulledSlider.edits.get? slider,
          pulledSlider.aim e.key = 12
            ∧ ¬ pulledSlider.tableau.IsBasic e.footprint.marker
            ∧ ∀ v, (pulledSlider.tableau.moveTarget e.footprint
                  (e.delta 5)).Solves v
                ↔ pulledSlider.Satisfies (update pulledSlider.aim e.key 5)
                    v := by
  have hreach : Reachable (fun _ c => Command.Built c) pulledSlider :=
    reachable_pulledSlider.mono fun _ _ may => may.1
  obtain ⟨goal, -, hcoh⟩ := Reachable.coherent <|
    reachable_pulledSlider.mono fun _ _ may => ⟨may.1, may.2.2⟩
  obtain ⟨hopp, -, hedit⟩ := Reachable.opposition hreach
  refine ⟨hreach, fun g hg y hy => hopp 3 g y hg hy, fun e he => ?_⟩
  obtain ⟨haim, hmoves⟩ := hedit slider e he (hcoh.owner he)
  have htarget : ∀ e ∈ pulledSlider.edits.get? slider,
      e.constraint.target = 12
        ∧ e.footprint.marker ∉ pulledSlider.tableau.rows.keys := by
    decide +kernel
  obtain ⟨htwelve, hout⟩ := htarget e he
  exact ⟨haim.trans htwelve, fun hb => hout (Tableau.mem_keys_iff.2 hb),
    (hmoves 5).2⟩

end Solver

end LinearConstraints
