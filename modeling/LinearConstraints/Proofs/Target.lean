/-
Targets: the goals of a consistent solver are the values suggested last.

As long as the constraint of an edit is removed only together with the
edit, each edit owns a registered constraint whose goal is its target, and
every other constraint has the goal zero. So the goals, which the tableau
is about, are the targets, which callers know.

# Why edits have to be kept

An edit whose constraint has been removed behind its back still takes
suggestions. They move nothing; but if another constraint were registered
under the number of the first, its goal would stay where it is while its
target, which goes by numbers, moved on.

Main statement: `Coherent.target_eq`, and `Transition.coherent`, by which
every reachable state is coherent.
-/
import LinearConstraints.Proofs.Transition
import LinearConstraints.Solver.Meaning

namespace LinearConstraints

/-- The number of the constraint of an edit. -/
def Edit.key (e : Edit Rat) : Nat := e.constraint.constraint.id

namespace Solver

open Function (update)

variable {s s' : Solver Rat} {goal goal' : Nat → Rat}

/-- Edits own constraints of their own, whose goals are their targets; other
goals are zero. -/
structure Coherent (s : Solver Rat) (goal : Nat → Rat) : Prop where
  owner : ∀ {x e}, s.edits.get? x = some e →
    s.registry.get? e.key = some ⟨e.constraint.constraint, e.footprint⟩
  apart : ∀ {x y e f}, s.edits.get? x = some e → s.edits.get? y = some f →
    e.key = f.key → x = y
  target : ∀ {x e}, s.edits.get? x = some e → goal e.key = e.constraint.target
  zero : ∀ {i g}, s.registry.get? i = some g →
    (∀ x e, s.edits.get? x = some e → e.key ≠ i) → goal i = 0

-- ============================================================= targets

/-- The edits are the records kept for the variables. -/
theorem mem_edits_values_iff {e : Edit Rat} :
    e ∈ s.edits.values ↔ ∃ x, s.edits.get? x = some e := by
  unfold Table.values
  rw [List.mem_map]
  constructor
  · intro hin
    obtain ⟨⟨x, e⟩, he, rfl⟩ := hin
    exact ⟨x, Table.get?_eq_some_iff.2 he⟩
  · intro hin
    obtain ⟨x, he⟩ := hin
    exact ⟨(x, e), Table.get?_eq_some_iff.1 he, rfl⟩

/-- The target of a registered constraint is its goal. -/
theorem Coherent.target_eq (h : s.Coherent goal) {i : Nat}
    {g : Registration Rat} (hi : s.registry.get? i = some g)
    (hkey : g.constraint.id = i) : s.target g.constraint = goal i := by
  unfold Solver.target
  cases hfind : s.edits.values.find? fun e =>
      e.constraint.constraint.id == g.constraint.id with
  | some e =>
      obtain ⟨x, he⟩ := mem_edits_values_iff.1
        (List.mem_of_find?_eq_some hfind)
      have htest := List.find?_some hfind
      have hid : e.key = i := (beq_iff_eq.1 htest).trans hkey
      rw [← hid]
      exact (h.target he).symm
  | none =>
      refine (h.zero hi fun x e he hid => ?_).symm
      refine List.find?_eq_none.1 hfind e
        (mem_edits_values_iff.2 ⟨x, he⟩) ?_
      rw [hkey]
      exact beq_iff_eq.2 hid

-- ====================================================== what is kept

theorem coherent_empty (goal : Nat → Rat) :
    (empty : Solver Rat).Coherent goal where
  owner := fun h => by cases h
  apart := fun h => by cases h
  target := fun h => by cases h
  zero := fun h => by cases h

/-- Coherence looks at the registry and the edits only. -/
theorem Coherent.congr (h : s.Coherent goal)
    (hr : s'.registry = s.registry) (he : s'.edits = s.edits) :
    s'.Coherent goal where
  owner := fun hx => hr ▸ h.owner (he ▸ hx)
  apart := fun hx hy => h.apart (he ▸ hx) (he ▸ hy)
  target := fun hx => h.target (he ▸ hx)
  zero := fun hi hall => h.zero (hr ▸ hi) (he ▸ hall)

/-- The goal of a constraint that is not registered does not count. -/
theorem Coherent.update_goal (h : s.Coherent goal) {i : Nat}
    (hi : s.registry.get? i = none) (k : Rat) :
    s.Coherent (update goal i k) where
  owner := h.owner
  apart := h.apart
  target := fun hx => by
    rw [Function.update_of_ne (Table.ne_of_get? (h.owner hx) hi)]
    exact h.target hx
  zero := fun hj hall => by
    rw [Function.update_of_ne (Table.ne_of_get? hj hi)]
    exact h.zero hj hall

/-- A constraint registered beside the edits, with the goal zero. -/
theorem Coherent.register (h : s.Coherent goal) {c : Constraint Rat}
    {f : Footprint} (hnew : s.registry.get? c.id = none)
    (hr : s'.registry = s.registry.insert c.id ⟨c, f⟩)
    (he : s'.edits = s.edits) : s'.Coherent (update goal c.id 0) := by
  have hget : ∀ i, s'.registry.get? i
      = if c.id = i then some ⟨c, f⟩ else s.registry.get? i := by
    intro i
    rw [hr, Table.get?_insert]
  have hkey : ∀ {x e}, s'.edits.get? x = some e → c.id ≠ e.key := by
    intro x e hx
    exact (Table.ne_of_get? (h.owner (he ▸ hx)) hnew).symm
  refine ⟨fun hx => ?_, fun hx hy => h.apart (he ▸ hx) (he ▸ hy),
    fun hx => ?_, fun {i g} hi hall => ?_⟩
  · rw [hget, if_neg (hkey hx)]
    exact h.owner (he ▸ hx)
  · rw [Function.update_of_ne (hkey hx).symm]
    exact h.target (he ▸ hx)
  · rw [hget] at hi
    split at hi
    case isTrue hid =>
      rw [← hid]
      exact Function.update_self ..
    case isFalse hid =>
      rw [Function.update_of_ne (Ne.symm hid)]
      exact h.zero hi (he ▸ hall)

/-- A constraint removed that no edit owns. -/
theorem Coherent.unregister (h : s.Coherent goal) {i : Nat}
    (hr : s'.registry = s.registry.erase i)
    (hsub : ∀ {x e}, s'.edits.get? x = some e →
      s.edits.get? x = some e ∧ e.key ≠ i)
    (hrest : ∀ {x e}, s.edits.get? x = some e → e.key ≠ i →
      s'.edits.get? x = some e) : s'.Coherent goal where
  owner := by
    intro x e hx
    obtain ⟨hx, hne⟩ := hsub hx
    rw [hr, Table.get?_erase, if_neg hne.symm]
    exact h.owner hx
  apart := fun hx hy => h.apart (hsub hx).1 (hsub hy).1
  target := fun hx => h.target (hsub hx).1
  zero := by
    intro j g hj hall
    rw [hr, Table.get?_erase] at hj
    split at hj
    · cases hj
    case isFalse hij =>
      refine h.zero hj fun x e hx hkey => ?_
      exact hall x e (hrest hx fun h => hij (h.symm.trans hkey)) hkey

/-- The edit of a constraint that has just been registered. -/
theorem Coherent.withEdit (h : s.Coherent goal) {x : Variable} {e : Edit Rat}
    (hnew : s.edits.get? x = none)
    (howner : s.registry.get? e.key
      = some ⟨e.constraint.constraint, e.footprint⟩)
    (hfree : ∀ {y f}, s.edits.get? y = some f → f.key ≠ e.key)
    (hgoal : goal e.key = e.constraint.target) :
    (s.withEdit x e).Coherent goal := by
  have hget : ∀ y, (s.withEdit x e).edits.get? y
      = if x = y then some e else s.edits.get? y :=
    fun y => Table.get?_insert ..
  refine ⟨fun {y f} hy => ?_, fun {y z f k} hy hz hkey => ?_,
    fun {y f} hy => ?_, fun {i g} hi hall => ?_⟩
  · rw [hget] at hy
    split at hy
    · obtain rfl := Option.some.inj hy
      exact howner
    · exact h.owner hy
  · rw [hget] at hy hz
    split at hy
    case isTrue hxy =>
      obtain rfl := Option.some.inj hy
      split at hz
      case isTrue hxz => exact hxy.symm.trans hxz
      case isFalse => exact absurd hkey.symm (hfree hz)
    case isFalse =>
      split at hz
      case isTrue =>
        obtain rfl := Option.some.inj hz
        exact absurd hkey (hfree hy)
      case isFalse => exact h.apart hy hz hkey
  · rw [hget] at hy
    split at hy
    · obtain rfl := Option.some.inj hy
      exact hgoal
    · exact h.target hy
  · refine h.zero hi fun y f hy => hall y f ?_
    rw [hget, if_neg (Table.ne_of_get? hy hnew).symm, hy]

/-- A suggestion moves the goal of the edit to its new target, and no
other. -/
theorem Coherent.suggest (h : s.Coherent goal) (ho : s.Orderly)
    {x : Variable} {e : Edit Rat} {value : Rat}
    (hx : s.edits.get? x = some e) (hr : s'.registry = s.registry)
    (he : s'.edits = s.edits.insert x
      { e with constraint := e.constraint.suggest value }) :
    s'.Coherent
      (s.movedGoal e.footprint (value - e.constraint.target) goal) := by
  have hget : ∀ y, s'.edits.get? y = if x = y
      then some { e with constraint := e.constraint.suggest value }
      else s.edits.get? y := by
    intro y
    rw [he, Table.get?_insert]
  -- two constraints with one footprint are one
  have hother : ∀ {i g}, s.registry.get? i = some g → i ≠ e.key →
      s.movedGoal e.footprint (value - e.constraint.target) goal i
        = goal i := by
    intro i g hi hne
    rw [movedGoal_of_get? hi, if_neg]
    intro hf
    refine hne (ho.disjoint hi (h.owner hx) (Or.inl rfl) ?_)
    rw [hf]
    exact Or.inl rfl
  refine ⟨fun {y f} hy => ?_, fun {y z f k} hy hz hkey => ?_,
    fun {y f} hy => ?_, fun {i g} hi hall => ?_⟩
  · rw [hr]
    rw [hget] at hy
    split at hy
    · obtain rfl := Option.some.inj hy
      have howner := h.owner hx
      exact howner
    · exact h.owner hy
  · have hold : ∀ {y f}, s'.edits.get? y = some f →
        ∃ f', s.edits.get? y = some f' ∧ f'.key = f.key := by
      intro y f hy
      rw [hget] at hy
      split at hy
      case isTrue hxy =>
        obtain rfl := Option.some.inj hy
        exact ⟨e, hxy ▸ hx, rfl⟩
      case isFalse => exact ⟨f, hy, rfl⟩
    obtain ⟨f', hf', hkf⟩ := hold hy
    obtain ⟨k', hk', hkk⟩ := hold hz
    exact h.apart hf' hk' (hkf.trans (hkey.trans hkk.symm))
  · rw [hget] at hy
    split at hy
    · obtain rfl := Option.some.inj hy
      show s.movedGoal e.footprint _ goal e.key = value
      rw [movedGoal_of_get? (h.owner hx), if_pos rfl, h.target hx]
      ring
    case isFalse hxy =>
      rw [hother (h.owner hy) fun hkey => hxy (h.apart hx hy hkey.symm)]
      exact h.target hy
  · rw [hr] at hi
    have hne : ∀ y f, s.edits.get? y = some f → f.key ≠ i := by
      intro y f hy
      by_cases hxy : x = y
      · obtain rfl := Option.some.inj ((hxy ▸ hx).symm.trans hy)
        have hkey := hall x { e with
          constraint := e.constraint.suggest value } (by rw [hget, if_pos rfl])
        exact hkey
      · exact hall y f (by rw [hget, if_neg hxy, hy])
    rw [hother hi (hne x e hx).symm]
    exact h.zero hi hne

/-- Transitions that keep edits keep a solver coherent. -/
theorem Transition.coherent {c : Command Rat} (hcons : s.Consistent goal)
    (h : s.Coherent goal) (hkeep : s.KeepsEdits c)
    (ht : Transition s goal c s' goal') : s'.Coherent goal' := by
  cases ht with
  | idle extend => exact h.congr extend.registry extend.edits
  | added hreg => exact h.register hreg.new hreg.registry hreg.edits
  | @removed c g _ found hrem =>
      have hne : ∀ {x e}, s.edits.get? x = some e → e.key ≠ c.id := by
        intro x e hx
        exact hkeep e (mem_edits_values_iff.2 ⟨x, hx⟩)
      refine h.unregister hrem.registry (fun hx => ?_) fun hx _ => ?_
      · rw [hrem.edits] at hx
        exact ⟨hx, hne hx⟩
      · rw [hrem.edits]
        exact hx
  | @edited id x strength f s₁ new _ hreg =>
      have hbase := h.register hreg.new hreg.registry hreg.edits
      have hnew : s.registry.get? id = none := hreg.new
      refine hbase.withEdit (by rw [hreg.edits, new]) ?_ (fun {y k} hy => ?_)
        (Function.update_self ..)
      · rw [hreg.registry]
        exact (Table.get?_insert ..).trans (if_pos rfl)
      · rw [hreg.edits] at hy
        exact Table.ne_of_get? (h.owner hy) hnew
  | @released x e g s₁ tracked _ hrem =>
      have hget : ∀ y, (s₁.withoutEdit x).edits.get? y
          = if x = y then none else s.edits.get? y := by
        intro y
        rw [← hrem.edits]
        exact Table.get?_erase ..
      refine h.unregister hrem.registry (fun {y f} hy => ?_)
        fun {y f} hy hne => ?_
      · rw [hget] at hy
        split at hy
        · cases hy
        case isFalse hxy =>
          exact ⟨hy, fun hkey => hxy (h.apart tracked hy hkey.symm)⟩
      · rw [hget, if_neg ?_]
        · exact hy
        · intro heq
          subst heq
          obtain rfl := Option.some.inj (tracked.symm.trans hy)
          exact hne rfl
  | suggested tracked hsug =>
      exact h.suggest hcons.toOrderly tracked hsug.registry hsug.edits
  | reset => exact coherent_empty goal

end Solver

end LinearConstraints
