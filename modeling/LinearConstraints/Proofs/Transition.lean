/-
Transitions: what a command can do, and what all of them keep.

A command that comes to an end does one of seven things (`Transition`),
whatever it answers. Each of them leads from a consistent solver to a
consistent one, and from a settled one to a settled one, unless a dummy
was dropped while the row of another depended on it. So every state that
commands lead to is consistent, and every state that guarded commands lead
to is settled.

Main statements: `perform_cases`, `Reachable.consistent` and
`Reachable.settled`; `Reachable.run`, by which a run of commands leads to a
reachable state if each of them may be given when its turn comes.
-/
import LinearConstraints.Proofs.Suggestion
import LinearConstraints.Proofs.Withdrawal
import LinearConstraints.Solver.Run

namespace LinearConstraints

-- ===================================================== built constraints

/-- Constraints as callers can make them: their strength is clipped. -/
inductive Constraint.Built : Constraint Rat → Prop where
  | new (id : Nat) (e : Expression Rat) (r : Relation) (s : Strength Rat) :
      Built (.new id e r s)
  | withStrength (id : Nat) {c : Constraint Rat} (h : Built c)
      (s : Strength Rat) : Built (c.withStrength id s)
  | labeled (id : Nat) {c : Constraint Rat} (h : Built c)
      (label : String) : Built (c.labeled id label)

/-- A clipped strength is not negative. -/
theorem Strength.clip_nonneg (s : Strength Rat) : 0 ≤ s.clip.value :=
  Scalar.clamp_nonneg (by decide) s.value

/-- The constraint of an edit has a clipped strength. -/
theorem EditConstraint.weight_new (id : Nat) (x : Variable)
    (s : Strength Rat) : 0 ≤ (new id x s).constraint.strength.value :=
  s.clip_nonneg

theorem Constraint.Built.weight {c : Constraint Rat} (h : c.Built) :
    0 ≤ c.strength.value := by
  induction h with
  | new _ _ _ s => exact s.clip_nonneg
  | withStrength _ _ s => exact s.clip_nonneg
  | labeled _ _ _ ih => exact ih

/-- The command adds no constraint but one that callers can make. -/
def Command.Built : Command Rat → Prop
  | .add c => c.Built
  | _ => True

namespace Solver

open Function (update)

variable {s s' : Solver Rat} {goal goal' : Nat → Rat}

-- ============================================================== guards

/-- The number of the constraint that a command takes out. -/
def removedId? (s : Solver Rat) : Command Rat → Option Nat
  | .remove c => some c.id
  | .removeEdit x =>
      (s.edits.get? x).map fun e => e.constraint.constraint.id
  | _ => none

theorem removedId?_removeEdit {x : Variable} {e : Edit Rat}
    (h : s.edits.get? x = some e) :
    s.removedId? (.removeEdit x) = some e.constraint.constraint.id := by
  show (s.edits.get? x).map _ = _
  rw [h]
  rfl

/-- The command takes a required equality out only while no other row is
keyed by a dummy. -/
def Spares (s : Solver Rat) (c : Command Rat) : Prop :=
  ∀ i g, s.removedId? c = some i → s.registry.get? i = some g →
    s.MayDrop g

/-- The command does not take out the constraint of an edit behind its
back. -/
def KeepsEdits (s : Solver Rat) : Command Rat → Prop
  | .remove c => ∀ e ∈ s.edits.values, e.constraint.constraint.id ≠ c.id
  | _ => True

instance (s : Solver Rat) (g : Registration Rat) :
    Decidable (s.MayDrop g) :=
  inferInstanceAs (Decidable (g.constraint.relation = .equal →
    g.constraint.strength.isRequired = true →
    ∀ x ∈ s.tableau.rows.keys, x.isDummy = true → x = g.footprint.marker))

instance (s : Solver Rat) (c : Command Rat) : Decidable (s.Spares c) :=
  decidable_of_iff
    (∀ g ∈ (s.removedId? c).bind s.registry.get?, s.MayDrop g) <| by
    unfold Spares
    constructor
    · intro h i g hc hi
      exact h g (Option.mem_bind_iff.2 ⟨i, hc, hi⟩)
    · intro h g hg
      obtain ⟨i, hc, hi⟩ := Option.mem_bind_iff.1 hg
      exact h i g hc hi

instance (s : Solver Rat) (c : Command Rat) : Decidable (s.KeepsEdits c) :=
  match c with
  | .remove c => inferInstanceAs (Decidable
      (∀ e ∈ s.edits.values, e.constraint.constraint.id ≠ c.id))
  | .add _ | .addEdit .. | .removeEdit _ | .suggest .. | .refresh
  | .reset => isTrue trivial

-- ========================================================= transitions

/-- The solver without the record of an edit. -/
def withoutEdit (s : Solver Rat) (x : Variable) : Solver Rat :=
  { s with edits := s.edits.erase x }

/-- What a command can do to a solver. -/
inductive Transition (s : Solver Rat) (goal : Nat → Rat) :
    Command Rat → Solver Rat → (Nat → Rat) → Prop where
  /-- It makes symbols at most, or copies values. -/
  | idle {c : Command Rat} {s' : Solver Rat} (extend : s.Extends s')
      (consistent : s'.Consistent goal) (settled : s.Settled → s'.Settled) :
      Transition s goal c s' goal
  | added {c : Constraint Rat} {f : Footprint} {s' : Solver Rat}
      (h : s.Registered c f s' goal) :
      Transition s goal (.add c) s' (update goal c.id 0)
  | removed {c : Constraint Rat} {g : Registration Rat} {s' : Solver Rat}
      (found : s.registry.get? c.id = some g)
      (h : s.Removed c.id g s' goal) :
      Transition s goal (.remove c) s' goal
  | edited {id : Nat} {x : Variable} {strength : Strength Rat}
      {f : Footprint} {s' : Solver Rat} (new : s.edits.get? x = none)
      (optional : strength.clip.isRequired = false)
      (h : s.Registered (EditConstraint.new id x strength).constraint f s'
        goal) :
      Transition s goal (.addEdit id x strength)
        (s'.withEdit x ⟨.new id x strength, f⟩) (update goal id 0)
  | released {x : Variable} {e : Edit Rat} {g : Registration Rat}
      {s' : Solver Rat} (tracked : s.edits.get? x = some e)
      (found : s.registry.get? e.constraint.constraint.id = some g)
      (h : s.Removed e.constraint.constraint.id g s' goal) :
      Transition s goal (.removeEdit x) (s'.withoutEdit x) goal
  | suggested {x : Variable} {e : Edit Rat} {value : Rat}
      {s' : Solver Rat} (tracked : s.edits.get? x = some e)
      (h : s.Suggested x e value s' goal)
      (settled : s.Settled → s'.Settled) :
      Transition s goal (.suggest x value) s'
        (s.movedGoal e.footprint (value - e.constraint.target) goal)
  | reset : Transition s goal .reset empty goal

/-- Doing nothing. -/
theorem Transition.stay (h : s.Consistent goal) (c : Command Rat) :
    Transition s goal c s goal :=
  .idle (.refl s) h id

/-- Copying values changes neither symbols nor bindings. -/
theorem Consistent.refresh (h : s.Consistent goal) :
    Transition s goal .refresh s.refresh goal := by
  have hsym : ∀ x, s.refresh.symbol? x = s.symbol? x := by
    intro x
    unfold symbol? Solver.refresh
    dsimp only
    rw [Table.get?_map, Option.map_map]
    rfl
  have hw : s.refresh.WellBound :=
    ⟨fun hx => h.wellBound.external (hsym _ ▸ hx),
      fun hx => h.wellBound.below (hsym _ ▸ hx),
      fun hx hx' => h.wellBound.injective (hsym _ ▸ hx) (hsym _ ▸ hx')⟩
  have hext : s.Extends s.refresh :=
    ⟨rfl, rfl, le_refl _, fun hx => (hsym _).trans hx⟩
  exact .idle hext
    (h.extend hext (h.toGrounded.extend hext rfl hw) h.separated rfl
      fun _ => rfl)
    fun hs => hs.extend rfl fun _ => rfl

/-- The answer of a command is no failure of the tableau, but that a
suggestion may fail in a solver that is not settled. -/
def Excused (s : Solver Rat) (r : Except (Error Rat) Unit) : Prop :=
  ∀ f, r = .error (.failure f) →
    f = .noDualEnteringSymbol ∧ ¬ s.Settled

section Cases

variable {budget : Nat}

private theorem add_cases (h : s.Consistent goal) {c : Constraint Rat}
    (hb : c.Built) :
    (∃ e, (s.add budget c).result = .error e ∧ e.isFatal = true)
      ∨ s.Excused (s.add budget c).result
        ∧ ∃ goal', Transition s goal (.add c) (s.add budget c).state
            goal' := by
  unfold add
  rcases register_cases h hb.weight budget with
    ⟨-, hr⟩ | ⟨hres, href⟩ | ⟨f, hres, hreg⟩ | ⟨e, hres, he⟩
  · rw [hr]
    exact Or.inr ⟨fun f hf => (by cases hf), goal, .stay h _⟩
  · unfold Outcome.andThen
    rw [hres]
    exact Or.inr ⟨fun f hf => (by cases hf), goal,
      .idle href.extend href.consistent href.settled⟩
  · rw [Outcome.andThen_of_ok hres]
    exact Or.inr ⟨fun f hf => (by cases hf), _, .added hreg⟩
  · unfold Outcome.andThen
    rw [hres]
    exact Or.inl ⟨e, rfl, he⟩

private theorem remove_transition (h : s.Consistent goal)
    (c : Constraint Rat) :
    (∃ e, (s.remove budget c).result = .error e ∧ e.isFatal = true)
      ∨ s.Excused (s.remove budget c).result
        ∧ ∃ goal', Transition s goal (.remove c) (s.remove budget c).state
            goal' := by
  rcases remove_cases h c budget with
    ⟨-, hr⟩ | ⟨g, hg, hres, hrem⟩ | hfatal
  · rw [hr]
    exact Or.inr ⟨fun f hf => (by cases hf), goal, .stay h _⟩
  · rw [hres]
    exact Or.inr ⟨fun f hf => (by cases hf), goal, .removed hg hrem⟩
  · exact Or.inl hfatal

private theorem addEdit_cases (h : s.Consistent goal) (id : Nat)
    (x : Variable) (strength : Strength Rat) :
    (∃ e, (s.addEdit budget id x strength).result = .error e
        ∧ e.isFatal = true)
      ∨ s.Excused (s.addEdit budget id x strength).result
        ∧ ∃ goal', Transition s goal (.addEdit id x strength)
            (s.addEdit budget id x strength).state goal' := by
  unfold addEdit
  cases hx : s.edits.get? x with
  | some e =>
      have hedit : s.isEdited x = true := by
        unfold isEdited Table.contains
        rw [hx]
        rfl
      rw [if_pos hedit]
      exact Or.inr ⟨fun f hf => (by cases hf), goal, .stay h _⟩
  | none =>
      have hedit : ¬ s.isEdited x = true := by
        unfold isEdited Table.contains
        rw [hx]
        exact Bool.false_ne_true
      rw [if_neg hedit]
      cases hr : strength.clip.isRequired with
      | true =>
          rw [if_pos rfl]
          exact Or.inr ⟨fun f hf => (by cases hf), goal, .stay h _⟩
      | false =>
          rw [if_neg Bool.false_ne_true]
          dsimp only
          rcases register_cases h (EditConstraint.weight_new id x strength)
              budget with
            ⟨-, hr⟩ | ⟨hres, href⟩ | ⟨f, hres, hreg⟩ | ⟨e, hres, he⟩
          · rw [hr]
            exact Or.inr ⟨fun f hf => (by cases hf), goal, .stay h _⟩
          · unfold Outcome.andThen
            rw [hres]
            exact Or.inr ⟨fun f hf => (by cases hf), goal,
              .idle href.extend href.consistent href.settled⟩
          · rw [Outcome.andThen_of_ok hres]
            exact Or.inr ⟨fun f hf => (by cases hf), _, .edited hx hr hreg⟩
          · unfold Outcome.andThen
            rw [hres]
            exact Or.inl ⟨e, rfl, he⟩

private theorem removeEdit_cases (h : s.Consistent goal) (x : Variable) :
    (∃ e, (s.removeEdit budget x).result = .error e ∧ e.isFatal = true)
      ∨ s.Excused (s.removeEdit budget x).result
        ∧ ∃ goal', Transition s goal (.removeEdit x)
            (s.removeEdit budget x).state goal' := by
  unfold removeEdit
  cases hx : s.edits.get? x with
  | none => exact Or.inr ⟨fun f hf => (by cases hf), goal, .stay h _⟩
  | some e =>
      dsimp only
      rcases remove_cases h e.constraint.constraint budget with
        ⟨-, hr⟩ | ⟨g, hg, hres, hrem⟩ | ⟨err, hres, he⟩
      · rw [hr]
        exact Or.inr ⟨fun f hf => (by cases hf), goal, .stay h _⟩
      · rw [Outcome.andThen_of_ok hres]
        exact Or.inr ⟨fun f hf => (by cases hf), goal, .released hx hg hrem⟩
      · unfold Outcome.andThen
        rw [hres]
        exact Or.inl ⟨err, rfl, he⟩

private theorem suggest_transition (h : s.Consistent goal) (x : Variable)
    (value : Rat) :
    (∃ e, (s.suggest budget x value).result = .error e
        ∧ e.isFatal = true)
      ∨ s.Excused (s.suggest budget x value).result
        ∧ ∃ goal', Transition s goal (.suggest x value)
            (s.suggest budget x value).state goal' := by
  rcases suggest_cases h x value budget with
    ⟨-, hr⟩ | ⟨e, hx, hsug, ⟨hres, hset⟩ | ⟨hres, hset⟩ | hfatal⟩
  · rw [hr]
    exact Or.inr ⟨fun f hf => (by cases hf), goal, .stay h _⟩
  · rw [hres]
    exact Or.inr ⟨fun f hf => (by cases hf), _, .suggested hx hsug hset⟩
  · rw [hres]
    refine Or.inr ⟨fun f hf => ?_, _,
      .suggested hx hsug fun hs => absurd hs hset⟩
    injection hf with hf
    injection hf with hf
    exact ⟨hf.symm, hset⟩
  · exact Or.inl hfatal

/-- What a command comes to: a transition, unless it has not come to an
end. -/
theorem perform_cases (h : s.Consistent goal) {c : Command Rat}
    (hb : c.Built) (budget : Nat) :
    (∃ e, (s.perform budget c).result = .error e ∧ e.isFatal = true)
      ∨ s.Excused (s.perform budget c).result
        ∧ ∃ goal', Transition s goal c (s.perform budget c).state goal' := by
  cases c with
  | add c => exact add_cases h hb
  | remove c => exact remove_transition h c
  | addEdit id x strength => exact addEdit_cases h id x strength
  | removeEdit x => exact removeEdit_cases h x
  | suggest x value => exact suggest_transition h x value
  | refresh => exact Or.inr ⟨fun f hf => (by cases hf), goal, h.refresh⟩
  | reset => exact Or.inr ⟨fun f hf => (by cases hf), goal, .reset⟩

end Cases

-- =========================================================== the start

private theorem not_basic_empty (x : Symbol) :
    ¬ (Tableau.empty : Tableau Rat).IsBasic x := by
  intro hbasic
  obtain ⟨r, hr⟩ := hbasic
  cases hr

/-- The forms of the empty tableau mention nothing. -/
private theorem form_empty {r : Row Rat}
    (h : (Tableau.empty : Tableau Rat).Form r) : r = .ofConstant 0 := by
  cases h with
  | row h => cases h
  | objective => rfl
  | auxiliary h => cases h

theorem consistent_empty (goal : Nat → Rat) :
    (empty : Solver Rat).Consistent goal where
  canonical := {
    reduced := fun hr => form_empty hr ▸ Row.reduced_ofConstant 0
    nonbasic := fun _ x hx => absurd hx (not_basic_empty x) }
  fresh := fun {x} _ => ⟨not_basic_empty x,
    fun hr => form_empty hr ▸ Row.coefficient_ofConstant 0 x⟩
  wellBound := ⟨fun h => (by cases h), fun h => (by cases h),
    fun h => by cases h⟩
  registered := fun h => by cases h
  disjoint := fun h => by cases h
  separated := ⟨fun h => (by cases h),
    fun x _ => Row.coefficient_ofConstant 0 x, fun h => (by cases h),
    fun h => by cases h⟩
  auxiliary := rfl
  required := fun h => by cases h
  solves := fun v => ⟨fun _ i g h => (by cases h),
    fun _ b r h => by cases h⟩
  objective := ⟨.ofConstant 0,
    fun x h0 => absurd (Row.coefficient_ofConstant 0 x) h0,
    fun v _ => (zero_add _).symm⟩
  edits := fun h => by cases h

theorem settled_empty : (empty : Solver Rat).Settled where
  feasible := fun _ _ h => by cases h
  dummiesIdle := fun _ _ h => by cases h
  lowest := fun x _ => le_of_eq (Row.coefficient_ofConstant 0 x).symm

-- ====================================================== what is kept

/-- Forgetting the record of an edit keeps the solver consistent. -/
theorem Consistent.withoutEdit (h : s.Consistent goal) (x : Variable) :
    (s.withoutEdit x).Consistent goal where
  canonical := h.canonical
  fresh := h.fresh
  wellBound := ⟨h.wellBound.external, h.wellBound.below,
    h.wellBound.injective⟩
  registered := fun hi => (h.registered hi).mono (le_refl _) id
  disjoint := h.disjoint
  separated := h.separated
  auxiliary := h.auxiliary
  required := h.required
  solves := h.solves
  objective := h.objective
  edits := by
    intro y e he
    have he : (s.edits.erase x).get? y = some e := he
    rw [Table.get?_erase] at he
    split at he
    · cases he
    · exact (h.edits he).mono (le_refl _) Or.inl fun _ hx => hx

/-- The symbols of an edit constraint that has just been registered are
those of an edit. -/
theorem Registered.tracks {id : Nat} {x : Variable}
    {strength : Strength Rat} {f : Footprint}
    (hopt : strength.clip.isRequired = false)
    (h : s.Registered (EditConstraint.new id x strength).constraint f s'
      goal) : s'.Tracks f := by
  have hi : s'.registry.get? id
      = some ⟨(EditConstraint.new id x strength).constraint, f⟩ := by
    rw [h.registry]
    exact (Table.get?_insert ..).trans (if_pos rfl)
  have hr := h.consistent.registered hi
  have howner : ∃ i g, s'.registry.get? i = some g ∧ g.footprint = f :=
    ⟨id, _, hi, rfl⟩
  cases hr.fits with
  | dummy _ required =>
      have hreq : strength.clip.isRequired = true := required
      rw [hopt] at hreq
      cases hreq
  | slack relation => exact absurd rfl relation
  | errors y _ _ marker companion kind =>
      exact ⟨marker, ⟨y, companion, kind⟩, hr.apart, hr.below,
        Or.inl howner⟩
  | slackened y relation => exact absurd rfl relation

/-- Transitions keep a solver consistent. -/
theorem Transition.consistent {c : Command Rat}
    (ht : Transition s goal c s' goal') : s'.Consistent goal' := by
  cases ht with
  | idle _ consistent => exact consistent
  | added h => exact h.consistent
  | removed _ h => exact h.consistent
  | edited _ optional hreg =>
      exact hreg.consistent.withEdit _ (hreg.tracks optional)
  | released _ _ h => exact h.consistent.withoutEdit _
  | suggested _ h => exact h.consistent
  | reset => exact consistent_empty goal

/-- Guarded transitions keep a solver settled. -/
theorem Transition.settled {c : Command Rat} (hcons : s.Consistent goal)
    (hs : s.Settled) (hspare : s.Spares c)
    (ht : Transition s goal c s' goal') : s'.Settled := by
  cases ht with
  | idle _ _ settled => exact settled hs
  | added h => exact h.settled hs
  | removed found h =>
      exact h.settled hs
        (hcons.detached_of_mayDrop found (hspare _ _ rfl found))
  | edited _ _ h =>
      have := h.settled hs
      exact ⟨this.feasible, this.dummiesIdle, this.lowest⟩
  | released tracked found h =>
      have hmay := hspare _ _ (removedId?_removeEdit tracked) found
      have := h.settled hs (hcons.detached_of_mayDrop found hmay)
      exact ⟨this.feasible, this.dummiesIdle, this.lowest⟩
  | suggested _ _ settled => exact settled hs
  | reset => exact settled_empty

-- ================================================================ runs

instance {ρ : Type} (o : Outcome (Solver Rat) (Error Rat) ρ) :
    Decidable o.Returned :=
  match h : o.result with
  | .ok r => isTrue fun e he => by rw [h] at he; cases he
  | .error e =>
      decidable_of_iff (e.isFatal = false)
        ⟨fun hf e' he => by
          rw [h] at he
          exact Except.error.inj he ▸ hf, fun hr => hr e h⟩

/-- Commands that may be given one after the other, each of which comes to
an end. -/
def Follows (allowed : Solver Rat → Command Rat → Prop) (budget : Nat) :
    Solver Rat → List (Command Rat) → Prop
  | _, [] => True
  | s, c :: cs => allowed s c ∧ (s.perform budget c).Returned
      ∧ Follows allowed budget (s.perform budget c).state cs

instance decidableFollows {allowed : Solver Rat → Command Rat → Prop}
    [∀ s c, Decidable (allowed s c)] (budget : Nat) :
    ∀ (s : Solver Rat) (cs : List (Command Rat)),
      Decidable (Follows allowed budget s cs)
  | _, [] => isTrue trivial
  | s, c :: cs =>
      have : Decidable (Follows allowed budget (s.perform budget c).state cs)
        := decidableFollows budget _ cs
      inferInstanceAs (Decidable (_ ∧ _ ∧ _))

theorem Reachable.mono {allowed allowed' : Solver Rat → Command Rat → Prop}
    (hle : ∀ s c, allowed s c → allowed' s c) (h : Reachable allowed s) :
    Reachable allowed' s := by
  induction h with
  | empty => exact .empty
  | step budget _ may ends ih => exact .step budget ih (hle _ _ may) ends

/-- Runs lead from reachable states to reachable states. -/
theorem Reachable.run {allowed guard : Solver Rat → Command Rat → Prop}
    {budget : Nat} {cs : List (Command Rat)}
    (hle : ∀ s, ∀ c ∈ cs, guard s c → allowed s c)
    (h : Reachable allowed s) (hf : Follows guard budget s cs) :
    Reachable allowed (s.run budget cs).1 := by
  induction cs generalizing s with
  | nil => exact h
  | cons c cs ih =>
      obtain ⟨hmay, hends, hrest⟩ := hf
      exact ih (fun s' c' hc' => hle s' c' (List.mem_cons_of_mem c hc'))
        (.step budget h (hle s c (List.mem_cons_self ..) hmay) hends) hrest

/-- The variable of a slider. -/
def slider : Variable := ⟨0, none⟩

/-- The variable of a label beside it. -/
def label : Variable := ⟨1, none⟩

/-- Keeps the label two beyond the slider. -/
def labelled : Constraint Rat :=
  .relate 2 (.ofVariable label) .equal
    ((Expression.ofVariable slider).plus (.ofConstant 2))

/-- A slider between one and ten that has been pulled past its end, and has
then lost its label. -/
def sliderRun : List (Command Rat) :=
  [.add (.relate 0 (.ofVariable slider) .greaterOrEqual (.ofConstant 1)),
    .add (.relate 1 (.ofVariable slider) .lessOrEqual (.ofConstant 10)),
    .add labelled, .addEdit 3 slider .strong, .suggest slider 12,
    .remove labelled]

/-- The slider that the run ends with. -/
def pulledSlider : Solver Rat := (Solver.empty.run 10 sliderRun).1

theorem reachable_pulledSlider :
    Reachable (fun s c => Command.Built c ∧ s.Spares c ∧ s.KeepsEdits c)
      pulledSlider := by
  have hbuilt : ∀ c ∈ sliderRun, c.Built := by
    simp only [sliderRun, List.forall_mem_cons, List.not_mem_nil,
      false_imp_iff, implies_true, and_true, Command.Built]
    exact ⟨.new .., .new .., .new ..⟩
  have hfollows : Follows (fun s c => s.Spares c ∧ s.KeepsEdits c) 10
      .empty sliderRun := by decide +kernel
  exact .run (fun _ c hc hg => ⟨hbuilt c hc, hg⟩) .empty hfollows

/-- A command that has come to an end has made a transition. -/
theorem transition_of_returned (h : s.Consistent goal) {c : Command Rat}
    (hb : c.Built) {budget : Nat} (hr : (s.perform budget c).Returned) :
    ∃ goal', Transition s goal c (s.perform budget c).state goal' := by
  rcases perform_cases h hb budget with ⟨e, he, hfatal⟩ | ⟨-, ht⟩
  · rw [hr e he] at hfatal
    cases hfatal
  · exact ht

/-- What every allowed transition keeps holds in every reachable state,
together with consistency. -/
theorem Reachable.induction {allowed : Solver Rat → Command Rat → Prop}
    {P : Solver Rat → (Nat → Rat) → Prop}
    (hbuilt : ∀ s c, allowed s c → c.Built)
    (hempty : P Solver.empty fun _ => 0)
    (hstep : ∀ {s goal c s' goal'}, allowed s c → s.Consistent goal →
      Transition s goal c s' goal' → P s goal → P s' goal')
    (h : Reachable allowed s) : ∃ goal, s.Consistent goal ∧ P s goal := by
  induction h with
  | empty => exact ⟨fun _ => 0, consistent_empty _, hempty⟩
  | step budget _ may ends ih =>
      obtain ⟨goal, hc, hP⟩ := ih
      obtain ⟨goal', ht⟩ :=
        transition_of_returned hc (hbuilt _ _ may) ends
      exact ⟨goal', ht.consistent, hstep may hc ht hP⟩

/-- Every state that commands lead to is consistent. -/
theorem Reachable.consistent
    (h : Reachable (fun _ c => Command.Built c) s) :
    ∃ goal, s.Consistent goal := by
  obtain ⟨goal, hc, -⟩ := h.induction (P := fun _ _ => True)
    (fun _ _ hb => hb) trivial fun _ _ _ _ => trivial
  exact ⟨goal, hc⟩

/-- Every state that guarded commands lead to is settled. -/
theorem Reachable.settled
    (h : Reachable (fun s c => Command.Built c ∧ s.Spares c) s) :
    ∃ goal, s.Consistent goal ∧ s.Settled :=
  h.induction (P := fun s _ => s.Settled) (fun _ _ hb => hb.1)
    settled_empty fun may hc ht hs => ht.settled hc hs may.2

end Solver

end LinearConstraints
