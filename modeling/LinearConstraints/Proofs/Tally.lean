/-
Tally: every registered constraint has a row.

Rows are added, exchanged and dropped in many places, some of them on the
way to an error. A pivot exchanges one row for another; an equation that
enters brings a row with it, unless its search ends with an empty one;
what fails is undone, or has been registered by then; and a constraint
that is removed takes a row with it, if there is one for its marker. So
the rows are as many as the constraints, less the searches that have ended
with an empty row.

# Empty rows

There is such a search only if rounding brings the artificial symbol back
into the basis (`Search.Recurs`). Then the constraint is taken for
redundant, and is registered without a row (`wedge_short_of_rows`). Exact
arithmetic has no such search, whatever it takes for zero.

Main statements: `Tidy.tallies_perform`, one command; `Tallied.row_each`,
every run.
-/
import LinearConstraints.Proofs.Search
import LinearConstraints.Scalar.Rounded

namespace LinearConstraints

variable {α : Type} [Scalar α]

-- ============================================================= tableaux

namespace Tableau

variable {side : ℕ → Bool} {S : Set Symbol} {t t' : Tableau α}
  {q : Search α} {goal : Goal} {budget : ℕ} {m : Symbol}

namespace Tidy

/-- A pivot exchanges a row for another. -/
theorem size_exchange? {b s : Symbol} (h : t.Tidy side S)
    (ht : t.exchange? b s = some t') : t'.rows.size = t.rows.size := by
  obtain ⟨r, d, hr, hd, rfl⟩ := exchange?_eq_some_iff.1 ht
  rw [size_install (h.resolve? hr hd).1.2]
  exact Table.size_erase_of_some hr

theorem size_minimise (h : t.Tidy side S) (budget : ℕ) (goal : Goal) :
    (t.minimise budget goal).state.rows.size = t.rows.size := by
  have hnext : ∀ u u' : Tableau α,
      u.Tidy side S ∧ u.rows.size = t.rows.size →
      primalStep goal u = .next u' →
      u'.Tidy side S ∧ u'.rows.size = t.rows.size := by
    intro u u' hu hstep
    cases primalStep_eq_iff.1 hstep with
    | pivot _ _ _ exchange =>
        exact ⟨hu.1.exchange? exchange,
          (hu.1.size_exchange? exchange).trans hu.2⟩
  exact (iterate_state hnext
    (fun _ _ _ hu hstop => state_of_primalStep hstop ▸ hu) budget
    ⟨h, rfl⟩).2

theorem size_restore (h : t.Tidy side S) (budget : ℕ) :
    (t.restore budget).state.rows.size = t.rows.size := by
  have hnext : ∀ u u' : Tableau α,
      u.Tidy side S ∧ u.rows.size = t.rows.size → dualStep u = .next u' →
      u'.Tidy side S ∧ u'.rows.size = t.rows.size := by
    intro u u' hu hstep
    cases dualStep_eq_iff.1 hstep with
    | @pass _ rest => exact ⟨hu.1.withStack rest, hu.2⟩
    | @pivot _ _ rest _ _ _ _ _ _ exchange =>
        have hrest := hu.1.withStack rest
        exact ⟨hrest.exchange? exchange,
          (hrest.size_exchange? exchange).trans hu.2⟩
  refine (iterate_state hnext (fun u u' res hu hstop => ?_) budget
    ⟨h, rfl⟩).2
  obtain ⟨stack, rfl⟩ := stack_of_dualStep hstop
  exact ⟨hu.1.withStack stack, hu.2⟩

/-- Retiring an artificial symbol exchanges its row for another, or drops
it if it is empty. Where it fails the row is not. -/
theorem size_retire (art : Symbol) (h : t.Tidy side S) :
    ((t.retire art).result = .ok true →
        (t.retire art).state.rows.size
            + ((t.rows.get? art).any fun r => r.cells.isEmpty).toNat
          = t.rows.size)
      ∧ ((t.retire art).result ≠ .ok true →
        ((t.rows.get? art).any fun r => r.cells.isEmpty) = false) := by
  generalize ho : t.retire art = o
  cases retire_eq_iff.1 ho with
  | away row =>
      rw [row]
      exact ⟨fun _ => Table.size_map .., fun hno => absurd rfl hno⟩
  | empty row cells =>
      rw [row, Option.any_some, cells]
      exact ⟨fun _ => Table.size_erase_of_some row,
        fun hno => absurd rfl hno⟩
  | refused row cells | absent row cells =>
      rw [row, Option.any_some, cells]
      exact ⟨fun hyes => (by cases hyes), fun _ => rfl⟩
  | pivot row cells _ exchange =>
      rw [row, Option.any_some, cells]
      exact ⟨fun _ => (Table.size_map ..).trans (h.size_exchange? exchange),
        fun _ => rfl⟩

/-- An equation that enters by a search brings a row, unless the search
overlooks it. What does not enter is not overlooked. -/
theorem size_adjoin (h : q.start.Tidy side S)
    (hart : q.base.rows.get? q.art = none) (budget : ℕ) :
    ((q.base.adjoin budget q.art q.row).result = .ok true →
        (q.base.adjoin budget q.art q.row).state.rows.size
            + (q.overlooks budget).toNat = q.base.rows.size + 1)
      ∧ ((q.base.adjoin budget q.art q.row).result ≠ .ok true →
        q.overlooks budget = false) := by
  rw [result_adjoin]
  rcases q.searchWith_cases budget with ⟨hend, heq⟩ | ⟨hend, hne⟩
  · have hdropped := (h.minimise budget .auxiliary).1.dropAuxiliary
    have hsize : (q.start.minimise budget .auxiliary).state.rows.size
        = q.base.rows.size + 1 :=
      (h.size_minimise budget .auxiliary).trans
        (Table.size_insert_of_none hart q.row)
    obtain ⟨hretired, hkept⟩ := hdropped.size_retire q.art
    unfold Search.overlooks
    rw [hend, Bool.true_and, ← hsize]
    refine ⟨fun hyes => ?_, fun hno => hkept (heq ▸ hno)⟩
    have hadjoin := adjoin_eq_of_ok ((result_adjoin ..).trans hyes)
    rw [hadjoin, heq]
    exact hretired (heq ▸ hyes)
  · have hno : q.overlooks budget = false := by
      unfold Search.overlooks
      rw [hend]
      rfl
    exact ⟨fun hyes => absurd hyes hne, fun _ => hno⟩

end Tidy

/-- Dropping a marker drops a row. -/
theorem size_dropMarker (h : t.dropMarker m = .ok t') :
    t'.rows.size + 1 = t.rows.size := by
  cases dropMarker_eq_iff.1 h with
  | basic row => exact Table.size_erase_of_some row
  | released _ _ row =>
      rw [size_substitute]
      exact Table.size_erase_of_some row

/-- Moving a target moves constants only. -/
theorem size_moveTarget (t : Tableau α) (f : Footprint) (k : α) :
    (t.moveTarget f k).rows.size = t.rows.size := by
  generalize ht' : t.moveTarget f k = t'
  cases moveTarget_eq_iff.1 ht' with
  | marker row => exact Table.size_insert_of_some row _
  | companion _ _ basic => exact Table.size_insert_of_some basic _
  | column => exact Table.size_map ..

end Tableau

-- ============================================================== solvers

namespace Solver

open Tableau (Search)

variable {s s' u : Solver α} {c : Constraint α} {r : Row α} {f : Footprint}
  {arts : List Symbol} {d : Sides} {κ : Bool} {n j k : ℕ}
  {lost : List (Search α)}

/-- The search if it overlooks its equation. -/
def unseen (budget : ℕ) (search : Option (Search α)) : List (Search α) :=
  (search.filter fun q => q.overlooks budget).toList

/-- From the one solver to the other as many rows have come, or gone, as
constraints, except that `k` of the constraints have none. -/
def Tallies (s s' : Solver α) (k : ℕ) : Prop :=
  s'.tableau.rows.size + k + s.registry.size
    = s'.registry.size + s.tableau.rows.size

omit [Scalar α] in
theorem Tallies.trans (h : Tallies s s' j) (h' : Tallies s' u k) :
    Tallies s u (j + k) := by
  unfold Tallies at *
  omega

omit [Scalar α] in
theorem tallies_of_eq (hrows : s'.tableau.rows.size = s.tableau.rows.size)
    (hregistry : s'.registry = s.registry) : Tallies s s' 0 := by
  unfold Tallies
  rw [hrows, hregistry]
  omega

theorem Tidy.tallies_settle (h : s.Tidy d arts) (budget : ℕ) :
    Tallies s (s.settle budget).state 0 :=
  tallies_of_eq (h.tableau.size_minimise budget .main) rfl

/-- An equation whose search succeeds enters, and the tableau is that of
the search. -/
theorem enter_of_search (hq : s.searchOf? r f = some q) (c : Constraint α)
    (budget : ℕ) :
    (s.enter budget c r f).state.registry = s.registry
      ∧ (s.enter budget c r f).state.tableau
        = (q.base.adjoin budget q.art q.row).state
      ∧ ((s.enter budget c r f).result = .ok ()
        ↔ (q.base.adjoin budget q.art q.row).result = .ok true) := by
  unfold searchOf? at hq
  unfold Solver.enter
  cases hp : pivotFor? r f with
  | some x =>
      rw [hp] at hq
      cases hq
  | none =>
      rw [hp] at hq
      dsimp only at hq ⊢
      by_cases hd : r.onlyDummies = true
      · rw [if_pos hd] at hq
        cases hq
      · rw [if_neg hd] at hq
        rw [if_neg hd]
        obtain rfl := Option.some.inj hq
        dsimp only
        rw [show (s.fresh .slack).2.tableau = s.tableau from rfl]
        generalize s.tableau.adjoin budget (s.fresh .slack).1 r = o
        obtain ⟨t, res⟩ := o
        cases res with
        | error e => exact ⟨rfl, rfl, by constructor <;> intro h <;> cases h⟩
        | ok feasible =>
            cases feasible with
            | true => exact ⟨rfl, rfl, fun _ => rfl, fun _ => rfl⟩
            | false =>
                exact ⟨rfl, rfl, by constructor <;> intro h <;> cases h⟩

/-- An operation on the solver brings a row if it succeeds, and none if it
does not, except that `k` rows are missing. The registry stays. -/
structure BringsRow (s : Solver α) (o : Outcome (Solver α) (Error α) Unit)
    (k : ℕ) : Prop where
  registry : o.state.registry = s.registry
  entered : o.result = .ok () →
    o.state.tableau.rows.size + k = s.tableau.rows.size + 1
  refused : o.result ≠ .ok () →
    o.state.tableau.rows.size + k = s.tableau.rows.size

/-- An equation that is solved at once enters, and brings a row. One that
contradicts the required equalities brings none. -/
theorem Posed.size_enter_direct (h : Posed d κ arts n r f s)
    (hq : s.searchOf? r f = none) (c : Constraint α) (budget : ℕ) :
    s.BringsRow (s.enter budget c r f) 0 := by
  have hdefine : ∀ x, s.BringsRow (s.define r x) 0 := by
    intro x
    unfold Solver.define
    cases he : r.isolate? x with
    | none => exact ⟨rfl, fun hok => (by cases hok), fun _ => rfl⟩
    | some e =>
        have hx := (h.drafts.row x (Row.isolate?_within he).1).1.2
        exact ⟨rfl, fun _ => Tableau.size_install hx e,
          fun hno => absurd rfl hno⟩
  unfold searchOf? at hq
  unfold Solver.enter
  cases hp : pivotFor? r f with
  | some x => exact hdefine x
  | none =>
      rw [hp] at hq
      dsimp only at hq ⊢
      by_cases hd : r.onlyDummies = true
      · rw [if_pos hd]
        split
        · exact hdefine f.marker
        · exact ⟨rfl, fun hok => (by cases hok), fun _ => rfl⟩
      · rw [if_neg hd] at hq
        cases hq

theorem length_unseen (budget : ℕ) (q : Search α) :
    (unseen budget (some q)).length = (q.overlooks budget).toNat := by
  unfold unseen
  cases hq : q.overlooks budget <;> simp [Option.filter, hq]

/-- An equation that enters brings a row, unless its search overlooks it.
One that does not enter brings none, and is not overlooked. -/
theorem Posed.size_enter (h : Posed d κ arts n r f s)
    (hready : ∀ q, s.searchOf? r f = some q →
      q.Ready d.ofSymbol (s.given arts)) (c : Constraint α) (budget : ℕ) :
    s.BringsRow (s.enter budget c r f)
      (unseen budget (s.searchOf? r f)).length := by
  cases hq : s.searchOf? r f with
  | none => exact h.size_enter_direct hq c budget
  | some q =>
      have hr := hready q hq
      have hbase : q.base = s.tableau := by rw [(eq_of_searchOf? hq).1]
      have hart := hr.tidy.get?_of_not_mem hr.art
      obtain ⟨hyes, hno⟩ := hr.tidy_start.size_adjoin hart budget
      obtain ⟨hreg, hstate, hiff⟩ := enter_of_search hq c budget
      rw [length_unseen]
      refine ⟨hreg, fun hok => ?_, fun hne => ?_⟩
      · rw [hstate, ← hbase]
        exact hyes (hiff.1 hok)
      · have hfails := mt hiff.2 hne
        rw [hstate, ← hbase, hno hfails,
          Tableau.adjoin_state_of_ne_ok hfails]
        rfl

/-- A constraint that is registered has brought a row, unless its search
has overlooked it; one that is refused has not. -/
theorem Tidy.tallies_register [VisibleUnit α] (h : s.Tidy .whole arts)
    (c : Constraint α) (budget : ℕ) :
    Tallies s (s.register budget c).state
      (unseen budget (s.search? c)).length := by
  have hposed := h.equation (κ := true) (c := c) (fun _ _ => rfl)
    ⟨rfl, fun _ _ => rfl⟩
  have hready := fun q => h.ready_searchOf? (c := c) (q := q)
  obtain ⟨hrows, hregistry, -⟩ := keeps_equation s c
  unfold Solver.register search?
  by_cases hc : s.contains c = true
  · rw [if_pos hc, if_pos hc]
    exact tallies_of_eq rfl rfl
  · rw [if_neg hc, if_neg hc]
    have hnew : s.registry.get? c.id = none :=
      Option.not_isSome_iff_eq_none.1 hc
    generalize s.equation c = p at *
    obtain ⟨r, f, s₁⟩ := p
    dsimp only at *
    obtain ⟨hkept, hyes, hno⟩ := hposed.size_enter hready c budget
    obtain ⟨hentered, hclaim⟩ := hposed.enter c (fun _ _ => rfl) budget
    generalize (unseen budget (s₁.searchOf? r f)).length = k at *
    generalize (s₁.searchSymbol? r f).toList ++ arts = arts'
      at hentered hclaim
    generalize s₁.enter budget c r f = o at *
    obtain ⟨s₂, res⟩ := o
    cases res with
    | error e =>
        have hsize := hno fun hok => by cases hok
        unfold Tallies Outcome.andThen
        dsimp only at hsize hkept ⊢
        rw [hsize, hkept, hregistry, hrows]
        omega
    | ok _ =>
        have hsize := hyes rfl
        have hregistered := hentered.register (c := c) (f := f)
          (fun x hx => ⟨(hclaim.given x hx).1, rfl⟩)
          hclaim.unowned hclaim.unbound
        rw [Outcome.andThen_of_ok rfl, Outcome.state_andThen_ok]
        refine Tallies.trans (j := k) (k := 0) ?_
          (hregistered.tallies_settle budget)
        unfold Tallies
        dsimp only at hsize hkept ⊢
        rw [hkept, hregistry, Table.size_insert_of_none hnew, hsize, hrows]
        omega

theorem forgive_rows (s : Solver α) (g : Registration α) :
    (s.forgive g).tableau.rows = s.tableau.rows
      ∧ (s.forgive g).registry = s.registry := by
  unfold forgive
  split <;> exact ⟨rfl, rfl⟩

/-- A constraint that is removed takes a row with it, if there is one for
its marker. -/
theorem Tidy.tallies_remove [LawfulZero α] (h : s.Tidy d arts)
    (c : Constraint α) (budget : ℕ)
    (hfound : (s.remove budget c).result
      ≠ .error (.failure .noMarkerLeavingRow)) :
    Tallies s (s.remove budget c).state 0 := by
  have hpresent := (h.checked_remove c budget).2
  unfold Solver.remove at *
  cases hg : s.registry.get? c.id with
  | none => exact tallies_of_eq rfl rfl
  | some g =>
      rw [hg] at hfound hpresent
      have hforgiven := (h.unregister c.id).forgive (g := g)
        fun x hx => (h.owned hg hx).1
      obtain ⟨hrows, hregistry⟩ :=
        forgive_rows { s with registry := s.registry.erase c.id } g
      dsimp only at *
      cases ht : (Solver.forgive _ g).tableau.dropMarker g.footprint.marker
        with
      | error e =>
          rw [ht] at hfound hpresent
          rcases Tableau.error_of_dropMarker ht with rfl | rfl
          · exact absurd rfl hfound
          · exact absurd rfl hpresent
      | ok t =>
          obtain ⟨htidy, haux⟩ := hforgiven.tableau.dropMarker ht
          have hsettled := (hforgiven.withTableau htidy
            (Tableau.Tidy.auxiliary_eq_none haux hforgiven.auxiliary))
            |>.tallies_settle budget
          refine Tallies.trans (j := 0) (k := 0) ?_ hsettled
          have hsize := Tableau.size_dropMarker ht
          have hcount := Table.size_erase_of_some hg
          unfold Tallies
          dsimp only at *
          rw [hregistry]
          rw [hrows] at hsize
          omega

-- ============================================================= commands

omit [Scalar α] in
/-- The edits do not count, nor does what an operation answers. -/
private theorem Tallies.andThen {ρ : Type}
    {o : Outcome (Solver α) (Error α) ρ} (h : Tallies s o.state k)
    {g : Solver α → ρ → Table Variable (Edit α)} :
    Tallies s
      (o.andThen fun s x => .ok { s with edits := g s x } ()).state k := by
  unfold Outcome.andThen
  split <;> exact h

theorem Tidy.tallies_suggest (h : s.Tidy d arts) (v : Variable) (x : α)
    (budget : ℕ) : Tallies s (s.suggest budget v x).state 0 := by
  unfold Solver.suggest
  cases s.edits.get? v with
  | none => exact tallies_of_eq rfl rfl
  | some e =>
      have hmoved := (h.tableau.moveTarget e.footprint
        (x - e.constraint.target)).1
      exact tallies_of_eq ((hmoved.size_restore budget).trans
        (Tableau.size_moveTarget ..)) rfl

/-- A command that finds the row that it is to drop changes the rows by as
many as the constraints, but for what a search overlooks. -/
theorem Tidy.tallies_perform [LawfulZero α] [VisibleUnit α]
    (h : s.Tidy .whole arts) {c : Command α} (hc : c ≠ .reset) (budget : ℕ)
    (hfound : (s.perform budget c).result
      ≠ .error (.failure .noMarkerLeavingRow)) :
    Tallies s (s.perform budget c).state
      (unseen budget (s.searchFor? c)).length := by
  cases c with
  | add c =>
      have heq : (s.perform budget (.add c)).state
          = (s.register budget c).state := Outcome.state_andThen_ok ..
      rw [heq]
      exact h.tallies_register c budget
  | remove c => exact h.tallies_remove c budget hfound
  | addEdit id v strength =>
      show Tallies s (s.addEdit budget id v strength).state _
      unfold Solver.addEdit searchFor?
      dsimp only
      by_cases hv : s.isEdited v = true
      · rw [if_pos hv, hv, Bool.true_or, if_pos rfl]
        exact tallies_of_eq rfl rfl
      · rw [if_neg hv, Bool.eq_false_of_not_eq_true hv, Bool.false_or]
        by_cases hreq : strength.clip.isRequired = true
        · rw [if_pos hreq, if_pos hreq]
          exact tallies_of_eq rfl rfl
        · rw [if_neg hreq, if_neg hreq]
          exact (h.tallies_register _ budget).andThen
  | removeEdit v =>
      show Tallies s (s.removeEdit budget v).state 0
      have hfound : (s.removeEdit budget v).result ≠ _ := hfound
      unfold Solver.removeEdit at hfound ⊢
      cases he : s.edits.get? v with
      | none => exact tallies_of_eq rfl rfl
      | some e =>
          rw [he] at hfound
          exact (h.tallies_remove _ budget
            (Outcome.result_ne_error_of_andThen hfound)).andThen
  | suggest v x => exact h.tallies_suggest v x budget
  | refresh => exact tallies_of_eq rfl rfl
  | reset => exact absurd rfl hc

-- ================================================================= runs

/-- The searches that have overlooked their equations, once a command has
been carried out. A reset begins anew. -/
def lose (budget : ℕ) (s : Solver α) (lost : List (Search α)) :
    Command α → List (Search α)
  | .reset => []
  | c => unseen budget (s.searchFor? c) ++ lost

/-- The states that commands lead to if none of them fails for want of a
row to drop, whether or not they come to an end, each with the searches
that have overlooked their equations on the way. -/
inductive Tallied : Solver α → List (Search α) → Prop where
  | empty : Tallied .empty []
  | step {s : Solver α} {lost : List (Search α)} (budget : ℕ)
      (c : Command α) (before : Tallied s lost)
      (found : (s.perform budget c).result
        ≠ .error (.failure .noMarkerLeavingRow)) :
      Tallied (s.perform budget c).state (lose budget s lost c)

theorem Tallied.tidy (h : Tallied s lost) : ∃ arts, s.Tidy .whole arts := by
  have htraced : ∃ arts, Traced s arts := by
    induction h with
    | empty => exact ⟨[], .empty⟩
    | step budget c _ _ ih =>
        obtain ⟨arts, h⟩ := ih
        exact ⟨_, h.step budget c⟩
  obtain ⟨arts, h⟩ := htraced
  exact ⟨arts, h.tidy⟩

/-- A run none of whose commands fails. -/
theorem Tallied.run (h : Tallied s lost) (budget : ℕ)
    {cs : List (Command α)}
    (hok : (s.run budget cs).2.all Except.isOk = true) :
    ∃ lost', Tallied (s.run budget cs).1 lost' := by
  induction cs generalizing s lost with
  | nil => exact ⟨lost, h⟩
  | cons c cs ih =>
      obtain ⟨hc, hcs⟩ := Bool.and_eq_true_iff.1 hok
      refine ih (h.step budget c fun herr => ?_) hcs
      rw [herr] at hc
      cases hc

section Lawful

variable [LawfulZero α] [VisibleUnit α]

omit [LawfulZero α] in
/-- The searches that have overlooked their equations are searches that
began ready. -/
theorem Tallied.ready (h : Tallied s lost) :
    ∀ q ∈ lost, (∃ S, q.Ready (fun _ => true) S)
      ∧ ∃ budget, q.overlooks budget = true := by
  induction h with
  | empty => exact fun _ hq => by cases hq
  | @step s lost budget c before found ih =>
      intro q hq
      obtain ⟨arts, htidy⟩ := before.tidy
      have hor : q ∈ unseen budget (s.searchFor? c) ∨ q ∈ lost := by
        cases c with
        | reset => cases hq
        | _ => exact List.mem_append.1 hq
      rcases hor with hnow | hbefore
      · obtain ⟨hsome, hover⟩ :=
          Option.filter_eq_some_iff.1 (Option.mem_toList.1 hnow)
        obtain ⟨c', hsearch⟩ := exists_search? hsome
        exact ⟨htidy.ready_search? hsearch, budget, hover⟩
      · exact ih q hbefore

/-- The rows are as many as the registered constraints, less the searches
that have overlooked their equations. -/
theorem Tallied.rows_size (h : Tallied s lost) :
    s.tableau.rows.size + lost.length = s.registry.size := by
  induction h with
  | empty => rfl
  | @step s lost budget c before found ih =>
      obtain ⟨arts, htidy⟩ := before.tidy
      by_cases hc : c = .reset
      · subst hc
        rfl
      · have htallies := htidy.tallies_perform hc budget found
        have hlose : lose budget s lost c
            = unseen budget (s.searchFor? c) ++ lost := by
          cases c with
          | reset => exact absurd rfl hc
          | _ => rfl
        unfold Tallies at htallies
        rw [hlose, List.length_append]
        omega

end Lawful

-- ============================================================ rounding

/-- Three quantities that are not negative; `x` is to be some 2.2 * 10^15
times `y` at least, which is said with three different weights, in one case
but for a share of `z`, so that rounding tells them apart; `y` is to be `z`
at least; and `x` is to be that many times `y` at least once more, with a
factor that has no exact reciprocal. -/
def wedge (α : Type) [Scalar α] : List (Constraint α) :=
  let x : Variable := ⟨0, some "x"⟩
  let y : Variable := ⟨1, some "y"⟩
  let z : Variable := ⟨2, some "z"⟩
  let plus (k : ℕ) (v : Variable) : Term α := ⟨v, (k : α)⟩
  let less (k : ℕ) (v : Variable) : Term α := ⟨v, -(k : α)⟩
  let atLeast (id : ℕ) (terms : List (Term α)) (k : α) : Constraint α :=
    .relate id ⟨terms, k⟩ .greaterOrEqual (.ofConstant 0)
  [atLeast 0 [⟨x, 1⟩] 0, atLeast 1 [⟨y, 1⟩] 0, atLeast 2 [⟨z, 1⟩] 0,
    atLeast 3 [plus (33 * 2 ^ 82) x, less (4550430920271866 * 2 ^ 86) y] 0,
    atLeast 4 [less (2 ^ 90) x, plus (8825078148406043 * 2 ^ 88) y,
      plus (2 ^ 88) z] (1 / ((2 ^ 20 : ℕ) : α)),
    atLeast 5 [plus (2 ^ 82) x, less (2206269537101511 * 2 ^ 82) y,
      less 1 z] 0,
    atLeast 6 [plus (2 ^ 86) y, less (2 ^ 86) z] 0,
    .relate 7 ⟨[less 5 x, plus 11031347685507554 y], 0⟩ .lessOrEqual
      (.ofConstant 0)]

instance : LawfulZero RoundedRat where
  not_lt := by decide +kernel
  beq := by decide +kernel

instance : VisibleUnit RoundedRat where
  one := by decide +kernel
  neg_one := by decide +kernel

/-- A constraint that holds the slider back. -/
def heldBack : Constraint Rat :=
  .relate 5 (.ofVariable slider) .lessOrEqual (.ofConstant 5)

-- ============================================================== results

/-- In every state that commands lead to, if none of them has failed for
want of a row to drop, there are as many rows as registered constraints,
less the searches that have overlooked their equations since the last
reset; and in each of those the artificial symbol has come back to the
basis after it had left it.

Whatever constraint is added next, its marker has the coefficient one or
minus one when the search for it begins, and the same one in the row of
the artificial symbol, and in no other, until that symbol leaves; an
inequality has a symbol for it to be exchanged for until then; and the row
is found empty at the end only if the symbol has come back. Where pivots
cancel what they should it never does, so that no equation is ever
overlooked. -/
theorem Tallied.row_each [LawfulZero α] [VisibleUnit α]
    (h : Tallied s lost) :
    s.tableau.rows.size + lost.length = s.registry.size
      ∧ (∀ q ∈ lost, q.Recurs)
      ∧ (∀ c q, s.search? c = some q →
          (∃ k, Scalar.IsSign k ∧ q.row.cells.get? q.marker = some k)
            ∧ (∀ t, q.Waits t → q.Marked t)
            ∧ (c.relation ≠ .equal → ∀ t a, q.Waits t →
                t.rows.get? q.art = some a →
                ∃ x, a.firstPivotable? = some x)
            ∧ ∀ budget, q.overlooks budget = true → q.Recurs)
      ∧ (PivotsCancel α →
          lost = [] ∧ ∀ c q, s.search? c = some q → ¬ q.Recurs) := by
  obtain ⟨arts, htidy⟩ := h.tidy
  refine ⟨h.rows_size, fun q hq => ?_, fun c q hq => ?_,
    fun hcancel => ⟨?_, fun c q hq => ?_⟩⟩
  · obtain ⟨⟨S, hready⟩, budget, hover⟩ := h.ready q hq
    exact hready.recurs_of_overlooks hover
  · have hof := searchOf?_of_search? hq
    have hmarker : q.marker = (s.equation c).2.1.marker := by
      rw [(eq_of_searchOf? hof).1]
    have hrow : q.row = (s.equation c).1 := by rw [(eq_of_searchOf? hof).1]
    obtain ⟨S, hready⟩ := htidy.ready_search? hq
    refine ⟨?_, fun t => hready.marked, fun hrel t a ht ha => ?_,
      fun budget => hready.recurs_of_overlooks⟩
    · rw [hmarker, hrow]
      exact htidy.get?_marker_equation c
    · refine hready.exists_firstPivotable? ht ?_ ha
      rw [hmarker, marker_equation]
      unfold markerKind
      rw [if_neg hrel]
      rfl
  · refine List.eq_nil_iff_forall_not_mem.2 fun q hq => ?_
    obtain ⟨⟨S, hready⟩, budget, hover⟩ := h.ready q hq
    exact hready.not_recurs (hready.recurs_of_overlooks hover)
  · obtain ⟨S, hready⟩ := htidy.ready_search? hq
    exact hready.not_recurs

/-- The slider has as many rows as constraints. To hold it back it takes a
search, in which the artificial symbol does not come back. In the wedge one
has come back, where numbers are rounded. -/
theorem pulledSlider_row_each :
    (∃ q, Tallied pulledSlider []
        ∧ pulledSlider.tableau.rows.size = 3
        ∧ pulledSlider.registry.size = 3
        ∧ pulledSlider.search? heldBack = some q
        ∧ q.Marked q.start ∧ ¬ q.Recurs)
      ∧ ∃ q, Tallied ((Solver.empty : Solver RoundedRat).run 100
          ((wedge RoundedRat).map .add)).1 [q] ∧ q.Recurs := by
  constructor
  · have hok : (Solver.empty.run 10 sliderRun).2.all Except.isOk = true := by
      decide +kernel
    have hsome : (pulledSlider.search? heldBack).isSome = true := by
      decide +kernel
    obtain ⟨q, hq⟩ := Option.isSome_iff_exists.1 hsome
    obtain ⟨lost, htallied⟩ := Tallied.empty.run 10 hok
    obtain ⟨hsize, -, hsearch, hcancel⟩ := Tallied.row_each htallied
    obtain ⟨rfl, hnever⟩ := hcancel inferInstance
    have hrows : pulledSlider.tableau.rows.size = 3 := by decide +kernel
    exact ⟨q, htallied, hrows, hsize.symm.trans hrows, hq,
      (hsearch _ q hq).2.1 _ .start, hnever _ q hq⟩
  · obtain ⟨hok, hrows, hregistered⟩ :
        ((Solver.empty : Solver RoundedRat).run 100
            ((wedge RoundedRat).map .add)).2.all Except.isOk = true
          ∧ ((Solver.empty : Solver RoundedRat).run 100
            ((wedge RoundedRat).map .add)).1.tableau.rows.size = 7
          ∧ ((Solver.empty : Solver RoundedRat).run 100
            ((wedge RoundedRat).map .add)).1.registry.size = 8 := by
      decide +kernel
    obtain ⟨lost, htallied⟩ := Tallied.empty.run 100 hok
    obtain ⟨hsize, hrecur, -⟩ := Tallied.row_each htallied
    have hone : lost.length = 1 := by omega
    obtain ⟨q, rfl⟩ := List.length_eq_one_iff.1 hone
    exact ⟨q, htallied, hrecur q (List.mem_singleton_self q)⟩

/-- Rounding loses a row: the eight constraints are all added, and there
are seven rows. -/
theorem wedge_short_of_rows :
    (LawfulZero RoundedRat ∧ VisibleUnit RoundedRat
        ∧ (0 : RoundedRat) < 0 + 1 ∧ (0 + -1 : RoundedRat) < 0)
      ∧ ((Solver.empty : Solver RoundedRat).run 100
          ((wedge RoundedRat).map .add)).2.all Except.isOk = true
      ∧ ((Solver.empty : Solver RoundedRat).run 100
          ((wedge RoundedRat).map .add)).1.tableau.rows.size = 7
      ∧ ((Solver.empty : Solver RoundedRat).run 100
          ((wedge RoundedRat).map .add)).1.registry.size = 8 :=
  ⟨⟨inferInstance, inferInstance, by decide +kernel, by decide +kernel⟩,
    by decide +kernel⟩

/-- In exact arithmetic it loses none. -/
example :
    ((Solver.empty : Solver Rat).run 100
        ((wedge Rat).map .add)).2.all Except.isOk = true
      ∧ ((Solver.empty : Solver Rat).run 100
          ((wedge Rat).map .add)).1.tableau.rows.size = 8 := by
  decide +kernel

end Solver

end LinearConstraints
