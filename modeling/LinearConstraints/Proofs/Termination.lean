/-
Termination: when an operation on a solver comes to an end.

Beside a bounded amount of other work an operation goes through loops of
pivots, two at most (`Runs`): the search for a solution of a new equation,
the search for the minimum, the repair of what a suggestion has turned
negative. It comes to an end exactly if none of these loops is endless. In
a solver whose tableau is feasible and whose objective is lowest, an
endless loop is one that stalls: from some pivot on the objective stays
what it is.

# A loop that does not end

Loops do stall. Four variables that may not be negative and two planes
through the origin make a corner with more rows at zero than it needs. A
weak constraint that pulls away from there enters at once, and four pivots
later the search for the minimum is at a tableau to which it comes back
every six pivots, the order of its rows and cells included. To let the
first symbol enter that lowers the objective, and the first row leave of
those that tie, does not rule this out.

Main statements: `hangs_iff`, `Runs.sound`, the theorem on reachable
solvers `Reachable.returned_iff`, and `not_always_returned`.
-/
import LinearConstraints.Proofs.Presence
import LinearConstraints.Proofs.Stalling

namespace LinearConstraints

-- ========================================================= the tableau

/-- An adjunction spends its budget exactly if its search does. -/
theorem Tableau.adjoin_spent_iff {t : Tableau Rat} {art : Symbol}
    {r : Row Rat} {n : ℕ} :
    (t.adjoin n art r).result = .error .budgetSpent
      ↔ ((Loop.lower .auxiliary (t.withArtificial art r)).run n).result
          = .error .budgetSpent := by
  rw [result_adjoin]
  generalize ho : t.searchWith n art r = o
  show o.result = _ ↔ ((t.withArtificial art r).minimise n .auxiliary).result
    = _
  cases searchWith_eq_iff.1 ho with
  | failed minimised =>
      rw [minimised]
      exact ⟨fun he => congrArg _ (Except.error.inj he),
        fun he => congrArg _ (Except.error.inj he)⟩
  | above minimised =>
      rw [minimised]
      exact ⟨fun he => (by cases he), fun he => by cases he⟩
  | zero minimised =>
      rw [minimised]
      refine ⟨fun he => ?_, fun he => by cases he⟩
      have := error_of_retire he
      cases this

namespace Solver

open Tableau (Loop)

variable {s s₁ s₂ : Solver Rat} {goal : Nat → Rat} {n : ℕ}

/-- The error that tells of a spent budget. -/
private abbrev spent : Error Rat := .failure .budgetSpent

theorem settle_spent_iff : (s.settle n).result = .error spent
    ↔ ((Loop.lower .main s.tableau).run n).result = .error .budgetSpent :=
  failure_of_onTableau_iff

-- ======================================================= registration

section Register

variable {c : Constraint Rat} {r : Row Rat} {f : Footprint}

/-- The loop by which a new equation looks for a solution. -/
def searchLoop (s : Solver Rat) (r : Row Rat) : Loop :=
  .lower .auxiliary (s.tableau.withArtificial ⟨.slack, s.nextId⟩ r)

/-- A row that is solved for a symbol enters without a loop. -/
private theorem define_ne_spent {x : Symbol} :
    (s.define r x).result ≠ .error spent := by
  intro he
  unfold define at he
  split at he <;> cases he

/-- Entering spends its budget in a search only. -/
theorem enter_spent_iff : (s.enter n c r f).result = .error spent
    ↔ pivotFor? r f = none ∧ r.onlyDummies = false
      ∧ ((s.searchLoop r).run n).result = .error .budgetSpent := by
  unfold enter
  cases hpiv : pivotFor? r f with
  | some x => exact ⟨fun he => absurd he define_ne_spent, fun h => by cases h.1⟩
  | none =>
      dsimp only [fresh]
      cases hdum : r.onlyDummies with
      | true =>
          rw [if_pos rfl]
          refine ⟨fun he => ?_, fun h => by cases h.2.1⟩
          split at he
          · exact absurd he define_ne_spent
          · cases he
      | false =>
          rw [if_neg Bool.false_ne_true, eq_self_iff_true, eq_self_iff_true,
            true_and, true_and]
          unfold searchLoop
          rw [← Tableau.adjoin_spent_iff,
            ← failure_of_onTableau_iff
              (s := { s with nextId := s.nextId + 1 })]
          constructor
          · intro he
            rcases Outcome.error_of_andThen he with ⟨hw, -⟩ | ⟨b, -, heq⟩
            · exact hw
            · rw [heq] at he
              cases b <;> cases he
          · intro hw
            unfold Outcome.andThen
            rw [hw]

/-- Registration spends its budget in the search for a solution, or in
that for the minimum after it. -/
theorem register_spent_iff (hc : s.contains c = false)
    (hq : s.equation c = (r, f, s₁)) :
    (s.register n c).result = .error spent
      ↔ (s₁.enter n c r f).result = .error spent
        ∨ (s₁.enter n c r f).result = .ok ()
          ∧ ((Loop.lower .main (s₁.enter n c r f).state.tableau).run n).result
            = .error .budgetSpent := by
  rw [register_eq hc hq]
  cases hent : (s₁.enter n c r f).result with
  | ok u =>
      rw [Outcome.andThen_of_ok hent, Outcome.error_andThen_ok_iff,
        settle_spent_iff]
      exact ⟨fun h => Or.inr ⟨rfl, h⟩,
        fun h => h.elim (fun h => by cases h) And.right⟩
  | error e =>
      unfold Outcome.andThen
      rw [hent]
      exact ⟨fun h => Or.inl (congrArg _ (Except.error.inj h)),
        fun h => h.elim (fun h => congrArg _ (Except.error.inj h))
          fun h => by cases h.1⟩

end Register

-- ============================================================ the loops

/-- The loops that a command goes through. -/
inductive Runs (s : Solver Rat) : Command Rat → Loop → Prop where
  /-- A new equation that has no subject looks for a solution. -/
  | search {c : Constraint Rat} {r : Row Rat} {f : Footprint}
      {s₁ : Solver Rat} (new : s.contains c = false)
      (posed : s.equation c = (r, f, s₁)) (subject : pivotFor? r f = none)
      (mixed : r.onlyDummies = false) :
      Runs s (.add c) (s₁.searchLoop r)
  /-- Once the equation has entered, the objective is minimised. -/
  | settle {c : Constraint Rat} {r : Row Rat} {f : Footprint}
      {s₁ : Solver Rat} {n : ℕ} (new : s.contains c = false)
      (posed : s.equation c = (r, f, s₁))
      (entered : (s₁.enter n c r f).result = .ok ()) :
      Runs s (.add c) (.lower .main (s₁.enter n c r f).state.tableau)
  | remove {c : Constraint Rat} {g : Registration Rat} {t : Tableau Rat}
      (found : s.registry.get? c.id = some g)
      (dropped : (s.forgive g).tableau.dropMarker g.footprint.marker = .ok t) :
      Runs s (.remove c) (.lower .main t)
  | addEdit {id : Nat} {x : Variable} {strength : Strength Rat} {l : Loop}
      (new : s.isEdited x = false)
      (optional : strength.clip.isRequired = false)
      (h : Runs s (.add (EditConstraint.new id x strength).constraint) l) :
      Runs s (.addEdit id x strength) l
  | removeEdit {x : Variable} {e : Edit Rat} {l : Loop}
      (tracked : s.edits.get? x = some e)
      (h : Runs s (.remove e.constraint.constraint) l) :
      Runs s (.removeEdit x) l
  | suggest {x : Variable} {e : Edit Rat} {value : Rat}
      (tracked : s.edits.get? x = some e) :
      Runs s (.suggest x value) (.repair
        (s.tableau.moveTarget e.footprint (value - e.constraint.target)))

/-- No budget is enough for the command. -/
def Hangs (s : Solver Rat) (c : Command Rat) : Prop :=
  ∀ n, (s.perform n c).result = .error spent

section Hangs

variable {c c' : Command Rat} {l : Loop}

/-- A command that is answered at once neither hangs nor goes through
loops. -/
private theorem hangs_iff_of_answered
    (hend : (s.perform 0 c).result ≠ .error spent)
    (hno : ∀ l, ¬ s.Runs c l) :
    s.Hangs c ↔ ∃ l, s.Runs c l ∧ l.Endless :=
  ⟨fun h => absurd (h 0) hend, fun h => absurd h.choose_spec.1 (hno _)⟩

/-- A command with one loop hangs if that loop is endless. -/
private theorem hangs_iff_of_loop
    (hrun : ∀ n, (s.perform n c).result = .error spent
      ↔ (l.run n).result = .error .budgetSpent)
    (hl : ∀ l', s.Runs c l' ↔ l' = l) :
    s.Hangs c ↔ ∃ l, s.Runs c l ∧ l.Endless := by
  have hangs : s.Hangs c ↔ l.Endless :=
    (forall_congr' hrun).trans Loop.endless_iff_run.symm
  rw [hangs]
  constructor
  · intro h
    exact ⟨l, (hl l).2 rfl, h⟩
  · intro h
    obtain ⟨l', hl', h⟩ := h
    exact (hl l').1 hl' ▸ h

/-- A command that does what another does hangs where that one does. -/
private theorem hangs_iff_of_same
    (hrun : ∀ n, (s.perform n c).result = .error spent
      ↔ (s.perform n c').result = .error spent)
    (hl : ∀ l, s.Runs c l ↔ s.Runs c' l)
    (h : s.Hangs c' ↔ ∃ l, s.Runs c' l ∧ l.Endless) :
    s.Hangs c ↔ ∃ l, s.Runs c l ∧ l.Endless :=
  (forall_congr' hrun).trans
    (h.trans (exists_congr fun l => and_congr_left' (hl l).symm))

/-- A loop that spends a budget spends every smaller one. -/
private theorem run_spent_of_le {m : ℕ} (hnm : n ≤ m)
    (h : (l.run m).result = .error .budgetSpent) :
    (l.run n).result = .error .budgetSpent := by
  by_contra hne
  have heq : l.run m = l.run n := iterate_mono hnm hne
  rw [← heq] at hne
  exact hne h

section Add

variable {c : Constraint Rat} {r : Row Rat} {f : Footprint}

/-- Entering ends the same way under all budgets that are enough. -/
private theorem enter_eq_of_ne_spent {m : ℕ}
    (hn : (s.enter n c r f).result ≠ .error spent)
    (hm : (s.enter m c r f).result ≠ .error spent) :
    s.enter n c r f = s.enter m c r f :=
  (enter_mono (le_max_left n m) hn).symm.trans
    (enter_mono (le_max_right n m) hm)

/-- An addition that hangs does so in the search for a solution or, if some
budget is enough for that, in the search for the minimum. -/
private theorem exists_endless_of_register (hc : s.contains c = false)
    (hq : s.equation c = (r, f, s₁))
    (h : ∀ n, (s.register n c).result = .error spent) :
    ∃ l, s.Runs (.add c) l ∧ l.Endless := by
  by_cases hall : ∀ n, (s₁.enter n c r f).result = .error spent
  · obtain ⟨hpiv, hdum, -⟩ := enter_spent_iff.1 (hall 0)
    exact ⟨_, .search hc hq hpiv hdum, Loop.endless_iff_run.2
      fun n => (enter_spent_iff.1 (hall n)).2.2⟩
  · obtain ⟨n, hn⟩ := not_forall.1 hall
    have hok := (((register_spent_iff hc hq).1 (h n)).resolve_left hn).1
    refine ⟨_, .settle hc hq hok, Loop.endless_iff_run.2 fun m => ?_⟩
    -- a budget that is enough to enter, and not less than `m`
    have heq := enter_mono (le_max_left n m) hn
    have hmax := (((register_spent_iff hc hq).1
      (h (max n m))).resolve_left (heq ▸ hn)).2
    rw [heq] at hmax
    exact run_spent_of_le (le_max_right n m) hmax

private theorem register_spent_of_endless (hc : s.contains c = false)
    (hq : s.equation c = (r, f, s₁)) (hl : s.Runs (.add c) l)
    (hend : l.Endless) (n : ℕ) :
    (s.register n c).result = .error spent := by
  refine (register_spent_iff hc hq).2 ?_
  have hrun := Loop.endless_iff_run.1 hend n
  cases hl with
  | search new posed subject mixed =>
      cases hq.symm.trans posed
      exact Or.inl (enter_spent_iff.2 ⟨subject, mixed, hrun⟩)
  | settle new posed entered =>
      cases hq.symm.trans posed
      by_cases hn : (s₁.enter n c r f).result = .error spent
      · exact Or.inl hn
      · rw [enter_eq_of_ne_spent hn (by rw [entered]; exact nofun)]
        exact Or.inr ⟨entered, hrun⟩

private theorem add_hangs_iff :
    s.Hangs (.add c) ↔ ∃ l, s.Runs (.add c) l ∧ l.Endless := by
  cases hc : s.contains c with
  | true =>
      refine hangs_iff_of_answered (fun h => ?_) fun l hl => ?_
      · have h : (s.add 0 c).result = .error spent := h
        unfold add register at h
        rw [hc, if_pos rfl] at h
        cases h
      · cases hl with
        | search new => rw [hc] at new; cases new
        | settle new => rw [hc] at new; cases new
  | false =>
      have hadd : s.Hangs (.add c)
          ↔ ∀ n, (s.register n c).result = .error spent :=
        forall_congr' fun n => Outcome.error_andThen_ok_iff _ _
      generalize hq : s.equation c = q
      obtain ⟨r, f, s₁⟩ := q
      rw [hadd]
      constructor
      · exact exists_endless_of_register hc hq
      · intro h
        obtain ⟨l, hl, hend⟩ := h
        exact register_spent_of_endless hc hq hl hend

end Add

private theorem remove_hangs_iff {c : Constraint Rat} :
    s.Hangs (.remove c) ↔ ∃ l, s.Runs (.remove c) l ∧ l.Endless := by
  cases hi : s.registry.get? c.id with
  | none =>
      refine hangs_iff_of_answered (fun h => ?_) fun l hl => ?_
      · have h : (s.remove 0 c).result = .error spent := h
        unfold remove at h
        rw [hi] at h
        cases h
      · cases hl with
        | remove found => rw [hi] at found; cases found
  | some g =>
      cases ht : (s.forgive g).tableau.dropMarker g.footprint.marker with
      | error e =>
          refine hangs_iff_of_answered (fun h => ?_) fun l hl => ?_
          · have h := ((remove_eq hi 0).1 e ht).symm.trans h
            injection h with h
            injection h with h
            rcases Tableau.error_of_dropMarker ht with rfl | rfl <;> cases h
          · cases hl with
            | remove found dropped =>
                obtain rfl := Option.some.inj (hi.symm.trans found)
                rw [ht] at dropped
                cases dropped
      | ok t =>
          refine hangs_iff_of_loop (l := .lower .main t) (fun n => ?_)
            fun l => ⟨fun hl => ?_, fun hl => hl ▸ .remove hi ht⟩
          · show (s.remove n c).result = _ ↔ _
            rw [(remove_eq hi n).2 t ht]
            exact settle_spent_iff
          · cases hl with
            | remove found dropped =>
                obtain rfl := Option.some.inj (hi.symm.trans found)
                rw [Except.ok.inj (ht.symm.trans dropped)]

/-- An edit variable is made by adding its constraint. -/
private theorem addEdit_hangs_iff {id : Nat} {x : Variable}
    {strength : Strength Rat} :
    s.Hangs (.addEdit id x strength)
      ↔ ∃ l, s.Runs (.addEdit id x strength) l ∧ l.Endless := by
  have hrefused : (s.isEdited x = true
      ∨ strength.clip.isRequired = true) →
      (s.Hangs (.addEdit id x strength)
        ↔ ∃ l, s.Runs (.addEdit id x strength) l ∧ l.Endless) := by
    intro hor
    refine hangs_iff_of_answered (fun h => ?_) fun l hl => ?_
    · have h : (s.addEdit 0 id x strength).result = .error spent := h
      unfold addEdit at h
      split at h
      · cases h
      case isFalse hx =>
        rw [if_pos (hor.resolve_left hx)] at h
        cases h
    · cases hl with
      | addEdit new optional =>
          rw [new, optional] at hor
          simp at hor
  cases hx : s.isEdited x with
  | true => exact hrefused (Or.inl hx)
  | false =>
      cases hr : strength.clip.isRequired with
      | true => exact hrefused (Or.inr hr)
      | false =>
          refine hangs_iff_of_same (fun n => ?_)
            (fun l => ⟨fun hl => ?_, .addEdit hx hr⟩) add_hangs_iff
          · show (s.addEdit n id x strength).result = _
              ↔ (s.add n _).result = _
            unfold addEdit add
            rw [hx, if_neg Bool.false_ne_true, hr, if_neg Bool.false_ne_true]
            exact (Outcome.error_andThen_ok_iff _ _).trans
              (Outcome.error_andThen_ok_iff _ _).symm
          · cases hl with
            | addEdit _ _ h => exact h

/-- An edit variable is made an ordinary one by removing its
constraint. -/
private theorem removeEdit_hangs_iff {x : Variable} :
    s.Hangs (.removeEdit x)
      ↔ ∃ l, s.Runs (.removeEdit x) l ∧ l.Endless := by
  cases hx : s.edits.get? x with
  | none =>
      refine hangs_iff_of_answered (fun h => ?_) fun l hl => ?_
      · have h : (s.removeEdit 0 x).result = .error spent := h
        unfold removeEdit at h
        rw [hx] at h
        cases h
      · cases hl with
        | removeEdit tracked => rw [hx] at tracked; cases tracked
  | some e =>
      refine hangs_iff_of_same (fun n => ?_)
        (fun l => ⟨fun hl => ?_, .removeEdit hx⟩) remove_hangs_iff
      · show (s.removeEdit n x).result = _ ↔ (s.remove n _).result = _
        unfold removeEdit
        rw [hx]
        exact Outcome.error_andThen_ok_iff _ _
      · cases hl with
        | removeEdit tracked h =>
            obtain rfl := Option.some.inj (hx.symm.trans tracked)
            exact h

private theorem suggest_hangs_iff {x : Variable} {value : Rat} :
    s.Hangs (.suggest x value)
      ↔ ∃ l, s.Runs (.suggest x value) l ∧ l.Endless := by
  cases hx : s.edits.get? x with
  | none =>
      refine hangs_iff_of_answered (fun h => ?_) fun l hl => ?_
      · have h : (s.suggest 0 x value).result = .error spent := h
        unfold suggest at h
        rw [hx] at h
        cases h
      · cases hl with
        | suggest tracked => rw [hx] at tracked; cases tracked
  | some e =>
      refine hangs_iff_of_loop (fun n => ?_)
        fun l => ⟨fun hl => ?_, fun hl => hl ▸ .suggest hx⟩
      · show (s.suggest n x value).result = _ ↔ _
        unfold suggest
        rw [hx]
        exact failure_of_onTableau_iff
      · cases hl with
        | suggest tracked =>
            obtain rfl := Option.some.inj (hx.symm.trans tracked)
            rfl

/-- A command hangs exactly if one of its loops is endless. -/
theorem hangs_iff :
    s.Hangs c ↔ ∃ l, s.Runs c l ∧ l.Endless := by
  cases c with
  | add c => exact add_hangs_iff
  | remove c => exact remove_hangs_iff
  | addEdit id x strength => exact addEdit_hangs_iff
  | removeEdit x => exact removeEdit_hangs_iff
  | suggest x value => exact suggest_hangs_iff
  | refresh => exact hangs_iff_of_answered nofun nofun
  | reset => exact hangs_iff_of_answered nofun nofun

/-- Some budget is enough for a command exactly if none of its loops is
endless. -/
theorem Consistent.exists_returned_iff (h : s.Consistent goal)
    (hb : c.Built) : (∃ n, (s.perform n c).Returned)
      ↔ ∀ l, s.Runs c l → ¬ l.Endless := by
  have hnot : (∃ n, (s.perform n c).Returned) ↔ ¬ s.Hangs c := by
    unfold Hangs
    rw [not_forall]
    exact exists_congr fun n => h.returned_iff_ne_spent hb
  rw [hnot, hangs_iff]
  exact ⟨fun hno l hl hend => hno ⟨l, hl, hend⟩,
    fun hall ⟨l, hl, hend⟩ => hall l hl hend⟩

end Hangs

-- ============================================================== headway

section Sound

variable {c : Command Rat} {l : Loop}

private theorem sound_of_add (h : s.Consistent goal)
    (hf : s.tableau.Feasible) {c : Constraint Rat}
    (hweight : 0 ≤ c.strength.value) (hl : s.Runs (.add c) l) :
    l.Sound := by
  have hp := poses_equation h.toGrounded c
  have hf₁ : (s.equation c).2.2.tableau.Feasible := by
    rw [hp.tableau]
    exact hf
  cases hl with
  | @search _ r f s₁ new posed subject mixed =>
      rw [posed] at hp hf₁
      dsimp only at hp hf₁
      have hadj := hp.adjoinable h.separated
        (pivotFor?_eq_none hp.written.reduced subject).1
      refine .lower (n := s₁.nextId + 1)
        (Tableau.canonical_withArtificial hadj) (fun x hx => ?_)
        (Tableau.feasible_withArtificial hf₁ hp.constant)
      have hid : s₁.nextId ≤ x.id := Nat.le_of_succ_le hx
      refine Tableau.unused_withArtificial (hp.grounded.fresh hid) ?_
        (hp.written.below hid)
      intro heq
      subst heq
      exact absurd hx (Nat.not_succ_le_self _)
  | @settle _ r f s₁ n new posed entered =>
      rw [posed] at hp hf₁
      have hent := hp.enters_of_ok h entered
      have hcons := h.register hp hweight (get?_of_not_contains new) hent
      exact .lower hcons.canonical (fun _ hx => hcons.fresh hx)
        (hent.feasible hf₁)

private theorem sound_of_remove (h : s.Consistent goal)
    (hf : s.tableau.Feasible) {c : Constraint Rat}
    (hl : s.Runs (.remove c) l) : l.Sound := by
  cases hl with
  | remove found dropped =>
      have hcons := h.withdraw found dropped
      exact .lower hcons.canonical (fun _ hx => hcons.fresh hx)
        (h.feasible_of_withdraw found hf dropped)

/-- From a feasible tableau with a lowest objective every loop starts where
it makes headway. -/
theorem Runs.sound (h : s.Consistent goal) (hf : s.tableau.Feasible)
    (hlow : s.tableau.objective.Lowest) (hb : c.Built)
    (hl : s.Runs c l) : l.Sound := by
  cases c with
  | add c => exact sound_of_add h hf hb.weight hl
  | remove c => exact sound_of_remove h hf hl
  | addEdit id x strength =>
      cases hl with
      | addEdit _ _ hl =>
          exact sound_of_add h hf (EditConstraint.weight_new id x strength)
            hl
  | removeEdit x =>
      cases hl with
      | removeEdit _ hl => exact sound_of_remove h hf hl
  | suggest x value =>
      cases hl with
      | @suggest _ e _ tracked =>
          obtain ⟨y, a, -, hshift⟩ := (h.edits tracked).shifts h.canonical
            (value - e.constraint.target)
          exact .repair (hshift.canonical h.canonical)
            (fun _ hx => hshift.unused (h.fresh hx))
            (hshift.separated h.separated) (hshift.objective ▸ hlow)
  | refresh => cases hl
  | reset => cases hl

end Sound

-- ===================================================== reachable states

/-- A command comes to an end exactly if none of its loops is endless.
Where the tableau is feasible and its objective lowest, as guarded commands
leave it (`Reachable.settled`), an endless loop is one that stalls. -/
theorem Reachable.returned_iff {c : Command Rat}
    (h : Reachable (fun _ c => Command.Built c) s) (hb : c.Built) :
    ((∃ n, (s.perform n c).Returned) ↔ ∀ l, s.Runs c l → ¬ l.Endless)
      ∧ (s.tableau.Feasible → s.tableau.objective.Lowest →
          ∀ l, s.Runs c l → (l.Endless ↔ l.Stalls)) := by
  obtain ⟨goal, hc⟩ := h.consistent
  refine ⟨hc.exists_returned_iff hb, fun hf hlow l hl => ?_⟩
  exact (hl.sound hc hf hlow hb).endless_iff_stalls

/-- Pulling the slider back comes to an end, so that no loop of it
stalls. -/
theorem pulledSlider_returned_iff :
    (∃ n, (pulledSlider.perform n (.suggest slider 3)).Returned)
      ∧ ∀ l, pulledSlider.Runs (.suggest slider 3) l → ¬ l.Stalls := by
  have hreach := reachable_pulledSlider
  have hspared : Reachable (fun s c => Command.Built c ∧ s.Spares c)
      pulledSlider := hreach.mono fun _ _ h => ⟨h.1, h.2.1⟩
  obtain ⟨-, -, hs⟩ := hspared.settled
  obtain ⟨hends, hstalls⟩ := Reachable.returned_iff
    (hreach.mono fun _ _ h => h.1) (c := .suggest slider 3) trivial
  have hr : ∃ n, (pulledSlider.perform n (.suggest slider 3)).Returned :=
    ⟨10, by decide +kernel⟩
  refine ⟨hr, fun l hl hst => hends.1 hr l hl ?_⟩
  exact (hstalls hs.feasible hs.lowest l hl).2 hst

-- ====================================================== a stalling loop

section Corner

/-- The variables of the corner. -/
def axis (i : Nat) : Variable := ⟨i, none⟩

/-- A linear form in the four variables of the corner. -/
def cornerForm (a b c d k : Rat) : Expression Rat :=
  ⟨[⟨axis 0, a⟩, ⟨axis 1, b⟩, ⟨axis 2, c⟩, ⟨axis 3, d⟩], k⟩

/-- Four variables that may not be negative, and two planes through the
origin. -/
def cornerRun : List (Command Rat) :=
  [.add (.required 0 (.ofVariable (axis 0)) .greaterOrEqual),
    .add (.required 1 (.ofVariable (axis 1)) .greaterOrEqual),
    .add (.required 2 (.ofVariable (axis 2)) .greaterOrEqual),
    .add (.required 3 (.ofVariable (axis 3)) .greaterOrEqual),
    .add (.required 4 (cornerForm (-1 / 2) (11 / 2) (5 / 2) (-9) 0)
      .greaterOrEqual),
    .add (.required 5 (cornerForm (-1 / 2) (3 / 2) (1 / 2) (-1) 0)
      .greaterOrEqual)]

/-- A solver in the corner. -/
def corner : Solver Rat := (Solver.empty.run 10 cornerRun).1

theorem reachable_corner :
    Reachable (fun s c => Command.Built c ∧ s.Spares c ∧ s.KeepsEdits c)
      corner := by
  have hbuilt : ∀ c ∈ cornerRun, c.Built := by
    simp only [cornerRun, List.forall_mem_cons, List.not_mem_nil,
      false_imp_iff, implies_true, and_true, Command.Built]
    exact ⟨.new .., .new .., .new .., .new .., .new .., .new ..⟩
  have hfollows : Follows (fun s c => s.Spares c ∧ s.KeepsEdits c) 10
      .empty cornerRun := by decide +kernel
  exact .run (fun _ c hc hg => ⟨hbuilt c hc, hg⟩) .empty hfollows

/-- A weak constraint that pulls away from the corner. -/
def pull : Constraint Rat :=
  .new 6 (cornerForm 10 (-57) (-9) (-24) (-1)) .greaterOrEqual .weak

/-- The corner, with the equation of the pull entered. -/
def pulledCorner : Outcome (Solver Rat) (Error Rat) Unit :=
  (corner.equation pull).2.2.enter 0 pull (corner.equation pull).1
    (corner.equation pull).2.1

/-- The tableau that the search for the minimum comes back to. -/
def turningPoint : Tableau Rat :=
  (pulledCorner.state.tableau.minimise 4 .main).state

/-- The search for the minimum gets to the turning point in four pivots,
and is back at it after every six. -/
theorem endless_pulledCorner :
    (Loop.lower .main pulledCorner.state.tableau).Endless := by
  have hrun : (pulledCorner.state.tableau.minimise 4 .main).result
      = .error .budgetSpent := by decide +kernel
  have hcycle : (turningPoint.minimise 6 .main).result
      = .error .budgetSpent := by decide +kernel
  have hback : (turningPoint.minimise 6 .main).state = turningPoint := by
    decide +kernel
  exact endless_of_cycle (Loop.step_ne_spent _) (n := 4) (k := 5)
    (Outcome.eq_error rfl hrun) (Outcome.eq_error hback hcycle)

/-- An operation on a solver that is reached by operations which come to an
end need not come to an end itself. -/
theorem not_always_returned :
    ¬ ∀ (s : Solver Rat) (c : Command Rat),
      Reachable (fun s c => Command.Built c ∧ s.Spares c ∧ s.KeepsEdits c)
        s → c.Built → ∃ n, (s.perform n c).Returned := by
  intro hall
  obtain ⟨goal, hc⟩ :=
    (reachable_corner.mono fun _ _ h => h.1).consistent
  have hb : Command.Built (.add pull) := Constraint.Built.new ..
  have hloop : corner.Runs (.add pull)
      (.lower .main pulledCorner.state.tableau) :=
    .settle (by decide +kernel) rfl
      (Outcome.result_eq_ok (by decide +kernel))
  exact (hc.exists_returned_iff hb).1 (hall corner (.add pull)
    reachable_corner hb) _ hloop endless_pulledCorner

end Corner

end Solver

end LinearConstraints
