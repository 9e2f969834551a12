/-
Ownership: every edit has the constraint that it was made with.

The constraint of an edit is recorded twice, in the registry and with the
edit. The two records agree as long as nobody takes the one without the
other (`Severs`), and only two commands can: removing the constraint of an
edit as if it were any other, and removing an edit where the removal fails
half way. The second never happens in exact arithmetic. All else keeps
the records in agreement, with every kind of number.

# What a severed edit is

It can be neither removed nor made anew, as its constraint is gone while
its variable still counts as edited. If the constraint is added again it
is given new symbols, and suggestions go on moving the old ones.

Main statements: `Linked.perform_iff`, one step, and `Reachable.linked`,
every state; `linked_not_kept_by_remove`: a caller can sever an edit.
-/
import LinearConstraints.Proofs.Transition
import LinearConstraints.Proofs.View

namespace LinearConstraints.Solver

variable {α : Type} {s s' : Solver α} {budget : Nat}

/-- Every edit has a registered constraint of its own, with the symbols
that the edit remembers. -/
structure Linked (s : Solver α) : Prop where
  owner : ∀ {x e}, s.edits.get? x = some e →
    s.registry.get? e.constraint.constraint.id
      = some ⟨e.constraint.constraint, e.footprint⟩
  apart : ∀ {x y e f}, s.edits.get? x = some e → s.edits.get? y = some f →
    e.constraint.constraint.id = f.constraint.constraint.id → x = y

-- ============================================================== writes

namespace Linked

/-- Only the registry and the edits count. -/
theorem congr (h : s.Linked) (hr : s'.registry = s.registry)
    (he : s'.edits = s.edits) : s'.Linked where
  owner := fun hx => hr ▸ h.owner (he ▸ hx)
  apart := fun hx hy => h.apart (he ▸ hx) (he ▸ hy)

/-- A new constraint takes the place of no other. -/
theorem register (h : s.Linked) {c : Constraint α} {f : Footprint}
    (hnew : s.registry.get? c.id = none) :
    ({ s with registry := s.registry.insert c.id ⟨c, f⟩ } : Solver α).Linked
    where
  owner := by
    intro x e hx
    have ho := h.owner hx
    have hne := Table.ne_of_get? ho hnew
    dsimp only
    rw [Table.get?_insert, if_neg hne.symm, ho]
  apart := h.apart

/-- The edit of a constraint that has just been registered. -/
theorem addEdit (h : s.Linked) {x : Variable} {e : Edit α}
    (howner : s.registry.get? e.constraint.constraint.id
      = some ⟨e.constraint.constraint, e.footprint⟩)
    (hfree : ∀ {y f}, s.edits.get? y = some f →
      f.constraint.constraint.id ≠ e.constraint.constraint.id) :
    ({ s with edits := s.edits.insert x e } : Solver α).Linked := by
  have hget : ∀ {y f}, (s.edits.insert x e).get? y = some f →
      x = y ∧ f = e ∨ x ≠ y ∧ s.edits.get? y = some f := by
    intro y f hy
    rw [Table.get?_insert] at hy
    split at hy
    case isTrue hxy => exact Or.inl ⟨hxy, (Option.some.inj hy).symm⟩
    case isFalse hxy => exact Or.inr ⟨hxy, hy⟩
  refine ⟨fun {y f} hy => ?_, fun {y z f k} hy hz hid => ?_⟩
  · rcases hget hy with ⟨-, rfl⟩ | ⟨-, hy⟩
    · exact howner
    · exact h.owner hy
  · rcases hget hy with ⟨rfl, rfl⟩ | ⟨-, hold⟩
    · rcases hget hz with ⟨hxz, -⟩ | ⟨-, hold⟩
      · exact hxz
      · exact absurd hid.symm (hfree hold)
    · rcases hget hz with ⟨-, rfl⟩ | ⟨-, hold'⟩
      · exact absurd hid (hfree hold)
      · exact h.apart hold hold' hid

/-- A suggestion changes neither the constraint of an edit nor its
symbols. -/
theorem suggest (h : s.Linked) {x : Variable} {e : Edit α} (value : α)
    (hx : s.edits.get? x = some e) :
    ({ s with
        edits := s.edits.insert x
          { e with constraint := e.constraint.suggest value } } :
      Solver α).Linked := by
  have hget : ∀ {y f}, (s.edits.insert x
        { e with constraint := e.constraint.suggest value }).get? y = some f →
      ∃ f', s.edits.get? y = some f'
        ∧ f'.constraint.constraint = f.constraint.constraint
        ∧ f'.footprint = f.footprint := by
    intro y f hy
    rw [Table.get?_insert] at hy
    split at hy
    case isTrue hxy =>
      obtain rfl := Option.some.inj hy
      exact ⟨e, hxy ▸ hx, rfl, rfl⟩
    · exact ⟨f, hy, rfl, rfl⟩
  refine ⟨fun hy => ?_, fun hy hz hid => ?_⟩
  · obtain ⟨f', hf', hc, hfoot⟩ := hget hy
    rw [← hc, ← hfoot]
    exact h.owner hf'
  · obtain ⟨f', hf', hc, -⟩ := hget hy
    obtain ⟨k', hk', hc', -⟩ := hget hz
    exact h.apart hf' hk' (by rw [hc, hc', hid])

/-- A constraint that no edit owns may go. -/
theorem unregister (h : s.Linked) {i : Nat}
    (hfree : ∀ {x e}, s.edits.get? x = some e →
      e.constraint.constraint.id ≠ i) :
    ({ s with registry := s.registry.erase i } : Solver α).Linked where
  owner := by
    intro x e hx
    dsimp only
    rw [Table.get?_erase, if_neg (hfree hx).symm]
    exact h.owner hx
  apart := h.apart

/-- An edit may go together with its constraint. -/
theorem release (h : s.Linked) {x : Variable} {e : Edit α}
    (hx : s.edits.get? x = some e) :
    ({ s with
        registry := s.registry.erase e.constraint.constraint.id
        edits := s.edits.erase x } : Solver α).Linked := by
  have hget : ∀ {y f}, (s.edits.erase x).get? y = some f →
      x ≠ y ∧ s.edits.get? y = some f := by
    intro y f hy
    rw [Table.get?_erase] at hy
    split at hy
    · cases hy
    case isFalse hxy => exact ⟨hxy, hy⟩
  refine ⟨fun hy => ?_, fun hy hz => h.apart (hget hy).2 (hget hz).2⟩
  obtain ⟨hxy, hy⟩ := hget hy
  dsimp only
  rw [Table.get?_erase, if_neg fun hid => hxy (h.apart hx hy hid)]
  exact h.owner hy

/-- The constraint of an edit is not gone. -/
theorem get?_ne_none (h : s.Linked) {x : Variable} {e : Edit α}
    (hx : s.edits.get? x = some e) :
    s.registry.get? e.constraint.constraint.id ≠ none := by
  rw [h.owner hx]
  exact Option.some_ne_none _

end Linked

-- ================================================================ steps

variable [Scalar α]

/-- The command takes the constraint of an edit out and leaves the edit. -/
inductive Severs (s : Solver α) (budget : Nat) : Command α → Prop where
  /-- It removes the constraint as if it were any other. -/
  | removal {c : Constraint α} {x : Variable} {e : Edit α}
      (tracked : s.edits.get? x = some e)
      (same : e.constraint.constraint.id = c.id) :
      Severs s budget (.remove c)
  /-- It removes the edit, and fails when the constraint has gone. -/
  | failure {x : Variable} {f : Tableau.Failure}
      (fails : (s.removeEdit budget x).result = .error (.failure f)) :
      Severs s budget (.removeEdit x)

theorem linked_empty : (empty : Solver α).Linked where
  owner := fun h => by cases h
  apart := fun h => by cases h

namespace Linked

/-- Registering keeps edits linked, and registers a new constraint where
it answers. -/
private theorem of_register (h : s.Linked) (budget : Nat)
    (c : Constraint α) :
    (s.register budget c).state.Linked
      ∧ ∀ f, (s.register budget c).result = .ok f →
          s.registry.get? c.id = none
            ∧ (s.register budget c).state.registry.get? c.id = some ⟨c, f⟩
            ∧ (s.register budget c).state.edits = s.edits := by
  rcases register_view budget s c with ⟨-, hr⟩ | ⟨hnew, hview⟩
  · rw [hr]
    exact ⟨h, fun f hf => by cases hf⟩
  · rcases hview with ⟨e, he, hview⟩ | ⟨f, hview, hres⟩
    · refine ⟨h.congr hview.registry hview.edits, fun f hf => ?_⟩
      rw [he] at hf
      cases hf
    · refine ⟨(h.register hnew).congr hview.registry hview.edits,
        fun f' hf' => ⟨hnew, ?_, hview.edits⟩⟩
      have hff : f = f' := by
        rcases hres with hok | ⟨e, he⟩
        · exact Except.ok.inj (hok.symm.trans hf')
        · rw [he] at hf'
          cases hf'
      rw [hview.registry, ← hff]
      exact (Table.get?_insert ..).trans (if_pos rfl)

private theorem add_linked (h : s.Linked) (c : Constraint α) :
    (s.add budget c).state.Linked := by
  have hreg := (h.of_register budget c).1
  unfold add Outcome.andThen
  split <;> exact hreg

private theorem addEdit_linked (h : s.Linked) (id : Nat) (x : Variable)
    (strength : Strength α) :
    (s.addEdit budget id x strength).state.Linked := by
  unfold Solver.addEdit
  split
  · exact h
  · split
    · exact h
    · obtain ⟨hreg, hok⟩ :=
        h.of_register budget (EditConstraint.new id x strength).constraint
      dsimp only
      unfold Outcome.andThen
      split
      case h_1 f hf =>
        obtain ⟨hnew, howner, hedits⟩ := hok f hf
        refine hreg.addEdit (e := ⟨.new id x strength, f⟩) howner
          fun {y k} hy => ?_
        rw [hedits] at hy
        exact Table.ne_of_get? (h.owner hy) hnew
      · exact hreg

private theorem remove_linked_iff (h : s.Linked) (c : Constraint α) :
    (s.remove budget c).state.Linked ↔ ¬ s.Severs budget (.remove c) := by
  rcases remove_view budget s c with ⟨hnone, hr⟩ | ⟨-, hview, -⟩
  · rw [hr]
    refine iff_of_true h fun hsev => ?_
    obtain ⟨tracked, same⟩ := hsev
    exact h.get?_ne_none tracked (same ▸ hnone)
  · constructor
    · intro hlink hsev
      obtain ⟨tracked, same⟩ := hsev
      refine hlink.get?_ne_none (hview.edits ▸ tracked) ?_
      rw [hview.registry, same]
      exact (Table.get?_erase ..).trans (if_pos rfl)
    · intro hno
      refine Linked.congr ?_ hview.registry hview.edits
      exact h.unregister fun hx hid => hno (.removal hx hid)

private theorem removeEdit_linked_iff (h : s.Linked) (x : Variable) :
    (s.removeEdit budget x).state.Linked
      ↔ ¬ s.Severs budget (.removeEdit x) := by
  have hsevers : s.Severs budget (.removeEdit x)
      ↔ ∃ f, (s.removeEdit budget x).result = .error (.failure f) :=
    ⟨fun hsev => by cases hsev with | failure fails => exact ⟨_, fails⟩,
      fun ⟨_, fails⟩ => .failure fails⟩
  rw [hsevers]
  unfold removeEdit
  cases hx : s.edits.get? x with
  | none => exact iff_of_true h fun ⟨f, hf⟩ => by cases hf
  | some e =>
      dsimp only
      rcases remove_view budget s e.constraint.constraint with
        ⟨hnone, -⟩ | ⟨-, hview, hok | ⟨f, hf⟩⟩
      · exact absurd hnone (h.get?_ne_none hx)
      · rw [Outcome.andThen_of_ok hok]
        refine iff_of_true ?_ fun ⟨f, hf⟩ => by cases hf
        exact (h.release hx).congr hview.registry
          (congrArg (·.erase x) hview.edits)
      · unfold Outcome.andThen
        rw [hf]
        refine iff_of_false (fun hlink => ?_) (not_not.2 ⟨f, rfl⟩)
        refine hlink.get?_ne_none (hview.edits ▸ hx) ?_
        rw [hview.registry]
        exact (Table.get?_erase ..).trans (if_pos rfl)

/-- A command keeps edits linked exactly if it severs none. -/
theorem perform_iff (h : s.Linked) (budget : Nat) (c : Command α) :
    (s.perform budget c).state.Linked ↔ ¬ s.Severs budget c := by
  cases c with
  | add c => exact iff_of_true (h.add_linked c) fun hsev => by cases hsev
  | remove c => exact h.remove_linked_iff c
  | addEdit id x strength =>
      exact iff_of_true (h.addEdit_linked id x strength)
        fun hsev => by cases hsev
  | removeEdit x => exact h.removeEdit_linked_iff x
  | suggest x value =>
      refine iff_of_true ?_ fun hsev => by cases hsev
      rcases suggest_view budget s x value with
        ⟨-, hr⟩ | ⟨e, hx, hview, -⟩
      · exact (congrArg (fun o => Linked o.state) hr).mpr h
      · exact (h.suggest value hx).congr hview.registry hview.edits
  | refresh => exact iff_of_true (h.congr rfl rfl) fun hsev => by cases hsev
  | reset => exact iff_of_true linked_empty fun hsev => by cases hsev

/-- The edit of a linked solver can be removed: its constraint is known. -/
theorem removeEdit_ne_unknown (h : s.Linked) {x : Variable} {e : Edit α}
    (hx : s.edits.get? x = some e) (budget : Nat) (c : Constraint α) :
    (s.removeEdit budget x).result ≠ .error (.unknownConstraint c) := by
  intro hres
  unfold removeEdit at hres
  rw [hx] at hres
  dsimp only at hres
  rcases remove_view budget s e.constraint.constraint with
    ⟨hnone, -⟩ | ⟨-, -, hok | ⟨f, hf⟩⟩
  · exact h.get?_ne_none hx hnone
  · rw [Outcome.andThen_of_ok hok] at hres
    cases hres
  · unfold Outcome.andThen at hres
    rw [hf] at hres
    cases hres

end Linked

-- ================================================================= runs

/-- In every state that commands lead to which sever no edit, each edit has
a registered constraint with the symbols that the edit remembers. So its
removal never fails for want of the constraint, and a suggestion moves the
symbols of that constraint. The next command leaves it so unless it severs
an edit. -/
theorem Reachable.linked
    (h : Reachable (fun s c => ∀ n, (s.perform n c).Returned →
      ¬ s.Severs n c) s) :
    s.Linked
      ∧ (∀ x e, s.edits.get? x = some e → ∀ n,
          (∀ c, (s.removeEdit n x).result ≠ .error (.unknownConstraint c))
            ∧ ∃ g, s.registry.get? e.constraint.constraint.id = some g
              ∧ g.constraint = e.constraint.constraint
              ∧ ∀ value, (s.suggest n x value).state.tableau
                = ((s.tableau.moveTarget g.footprint
                    (value - e.constraint.target)).restore n).state)
      ∧ ∀ n c, (s.perform n c).state.Linked ↔ ¬ s.Severs n c := by
  have hlinked : s.Linked := by
    induction h with
    | empty => exact linked_empty
    | step budget _ may ends ih =>
        exact (ih.perform_iff budget _).2 (may budget ends)
  refine ⟨hlinked, fun x e hx n => ⟨hlinked.removeEdit_ne_unknown hx n,
    _, hlinked.owner hx, rfl, fun value => ?_⟩, hlinked.perform_iff⟩
  unfold suggest
  rw [hx]
  rfl

section Exact

variable {s : Solver Rat} {goal : Nat → Rat} {c : Command Rat}

/-- In exact arithmetic no removal fails half way. -/
theorem Consistent.not_severs (h : s.Consistent goal)
    (hkeep : s.KeepsEdits c) (hr : (s.perform budget c).Returned) :
    ¬ s.Severs budget c := by
  intro hsev
  cases hsev with
  | @removal c x e tracked same =>
      refine hkeep e ?_ same
      exact List.mem_map.2 ⟨(x, e), Table.get?_eq_some_iff.1 tracked, rfl⟩
  | @failure x f fails =>
      have hret := hr _ fails
      unfold removeEdit at fails
      cases hx : s.edits.get? x with
      | none =>
          rw [hx] at fails
          cases fails
      | some e =>
          rw [hx] at fails
          dsimp only at fails
          rcases remove_cases h e.constraint.constraint budget with
            ⟨-, hrem⟩ | ⟨g, -, hok, -⟩ | ⟨err, herr, hfatal⟩
          · rw [hrem] at fails
            cases fails
          · rw [Outcome.andThen_of_ok hok] at fails
            cases fails
          · unfold Outcome.andThen at fails
            rw [herr] at fails
            rw [Except.error.inj fails, hret] at hfatal
            cases hfatal

/-- So there the constraint of an edit must only not be removed as if it
were any other. -/
theorem Reachable.of_keepsEdits
    (h : Reachable (fun s c => Command.Built c ∧ s.KeepsEdits c) s) :
    Reachable (fun s c => ∀ n, (s.perform n c).Returned →
      ¬ s.Severs n c) s := by
  induction h with
  | empty => exact .empty
  | step budget before may ends ih =>
      obtain ⟨goal, hcons⟩ := (before.mono fun _ _ h => h.1).consistent
      exact .step budget ih (fun _ hr => hcons.not_severs may.2 hr) ends

/-- The edit of the slider that has been pulled past its end can still be
removed, after a label was removed beside it. -/
theorem pulledSlider_linked :
    Reachable (fun s c => ∀ n, (s.perform n c).Returned →
        ¬ s.Severs n c) pulledSlider
      ∧ pulledSlider.Linked
      ∧ pulledSlider.isEdited slider = true
      ∧ ∀ n c, (pulledSlider.removeEdit n slider).result
          ≠ .error (.unknownConstraint c) := by
  have hreach := Reachable.of_keepsEdits
    (reachable_pulledSlider.mono fun _ _ may => ⟨may.1, may.2.2⟩)
  obtain ⟨hlinked, hedits, -⟩ := Reachable.linked hreach
  have hedited : pulledSlider.isEdited slider = true := by decide +kernel
  obtain ⟨e, he⟩ := Option.isSome_iff_exists.1 hedited
  exact ⟨hreach, hlinked, hedited, fun n => (hedits slider e he n).1⟩

/-- The constraint that makes the slider an edit. -/
def sliderTie : Constraint Rat :=
  (EditConstraint.new 0 slider .strong).constraint

/-- Makes the slider an edit, and takes its constraint out behind its
back. -/
def severingRun : List (Command Rat) :=
  [.addEdit 0 slider .strong, .remove sliderTie]

/-- The slider that the run ends with. -/
def severedSlider : Solver Rat := (Solver.empty.run 10 severingRun).1

/-- The same slider with the constraint added again. -/
def retiedSlider : Solver Rat :=
  (severedSlider.run 10 [.add sliderTie]).1

theorem reachable_severedSlider :
    Reachable (fun _ c => Command.Built c) severedSlider := by
  have hbuilt : ∀ c ∈ severingRun, c.Built := by
    simp only [severingRun, List.forall_mem_cons, List.not_mem_nil,
      false_imp_iff, implies_true, and_true, Command.Built]
  have hfollows : Follows (fun _ _ => True) 10 .empty severingRun := by
    decide +kernel
  exact .run (fun _ c hc _ => hbuilt c hc) .empty hfollows

theorem reachable_retiedSlider :
    Reachable (fun _ c => Command.Built c) retiedSlider := by
  have hbuilt : ∀ c ∈ [Command.add sliderTie], c.Built := by
    simp only [List.forall_mem_cons, List.not_mem_nil, false_imp_iff,
      implies_true, and_true, Command.Built]
    exact .new ..
  have hfollows : Follows (fun _ _ => True) 10 severedSlider
      [.add sliderTie] := by decide +kernel
  exact .run (fun _ c hc _ => hbuilt c hc) reachable_severedSlider hfollows

/-- A caller can sever an edit. Its variable still counts as edited, but
its constraint is not registered and no removal of the edit succeeds; and
once the constraint is added again, its symbols are not those that
suggestions move. -/
theorem linked_not_kept_by_remove :
    (Reachable (fun _ c => Command.Built c) severedSlider
        ∧ ∃ e, severedSlider.edits.get? slider = some e
          ∧ severedSlider.registry.get? e.constraint.constraint.id = none
          ∧ ∀ n, (severedSlider.removeEdit n slider).result
              = .error (.unknownConstraint e.constraint.constraint))
      ∧ Reachable (fun _ c => Command.Built c) retiedSlider
        ∧ ∃ e g, retiedSlider.edits.get? slider = some e
          ∧ retiedSlider.registry.get? e.constraint.constraint.id = some g
          ∧ g.footprint ≠ e.footprint := by
  refine ⟨⟨reachable_severedSlider, ?_⟩, reachable_retiedSlider, ?_⟩
  · have hedited : (severedSlider.edits.get? slider).isSome := by
      decide +kernel
    have hgone : ∀ e ∈ severedSlider.edits.get? slider,
        severedSlider.registry.get? e.constraint.constraint.id
          |>.isNone := by decide +kernel
    obtain ⟨e, he⟩ := Option.isSome_iff_exists.1 hedited
    have hnone := Option.isNone_iff_eq_none.1 (hgone e he)
    refine ⟨e, he, hnone, fun n => ?_⟩
    unfold removeEdit
    rw [he]
    dsimp only
    rcases remove_view n severedSlider e.constraint.constraint with
      ⟨-, hr⟩ | ⟨⟨g, hg⟩, -⟩
    · rw [hr]
      rfl
    · rw [hnone] at hg
      cases hg
  · have hedited : (retiedSlider.edits.get? slider).isSome := by
      decide +kernel
    have hfound : ∀ e ∈ retiedSlider.edits.get? slider,
        (retiedSlider.registry.get? e.constraint.constraint.id).isSome
          ∧ ∀ g ∈ retiedSlider.registry.get? e.constraint.constraint.id,
              g.footprint ≠ e.footprint := by decide +kernel
    obtain ⟨e, he⟩ := Option.isSome_iff_exists.1 hedited
    obtain ⟨hsome, hne⟩ := hfound e he
    obtain ⟨g, hg⟩ := Option.isSome_iff_exists.1 hsome
    exact ⟨e, g, he, hg, hne g hg⟩

end Exact

end LinearConstraints.Solver
