/-
Confinement: external symbols stay where they do no harm.

External symbols stand for variables of either sign. Their rows are never
looked at by a ratio test, and a row or an objective that mentioned one
would make the tests of the others unsound. In every state that commands
lead to they occur in the rows of external symbols only, so that pivots
pass them by: what leaves the basis in a loop is restricted, what enters
is mentioned by a row that mentions no external symbol.

# Why variables stay

So an external symbol, once its equation has been solved for it, leaves
the basis in one case only: a constraint is removed whose marker is
neither basic nor mentioned by a restricted row, and an external row is
all that is left for it (`Expels`). What such a row defines is then put
into external rows only, where external symbols are at home.

Main statements: `Confined.step`, `Anchored.perform` and
`Reachable.confinement`.
-/
import LinearConstraints.Proofs.Termination

namespace LinearConstraints

/-- A symbol with a coefficient in an internal row is not external. -/
theorem Row.Internal.not_external {r : Row Rat} (hr : r.Internal)
    {x : Symbol} (hx : r.coefficient x ≠ 0) : x.isExternal = false := by
  by_contra hext
  exact hx (hr x (Bool.not_eq_false _ ▸ hext))

namespace Tableau

variable {t t' : Tableau Rat} {x : Symbol} {goal : Goal} {n : ℕ}

-- ============================================================= one pivot

/-- No form mentions a basic symbol, and none an external one but the rows
of external symbols. -/
structure Confined (t : Tableau Rat) : Prop where
  canonical : t.Canonical
  separated : t.Separated

/-- The second tableau is the first after a pivot on two symbols, neither
of which is external. What waits on the stack does not count. -/
def PivotsInside (t t' : Tableau Rat) : Prop :=
  ∃ stack b s, b.isExternal = false ∧ s.isExternal = false
    ∧ (t.popped stack).exchange? b s = some t'

/-- Such a pivot lets no external symbol enter or leave. -/
theorem PivotsInside.isBasic_iff (h : t.PivotsInside t')
    (hx : x.isExternal = true) : t'.IsBasic x ↔ t.IsBasic x := by
  obtain ⟨stack, b, s, hb, hs, hex⟩ := h
  obtain ⟨r, d, -, -, rfl⟩ := exchange?_eq_some_iff.1 hex
  have hxs : x ≠ s := Symbol.ne_of_test hx hs
  have hbx : b ≠ x := (Symbol.ne_of_test hx hb).symm
  rw [isBasic_install, isBasic_without]
  exact ⟨fun h => (h.resolve_left hxs).2, fun h => Or.inr ⟨hbx, h⟩⟩

namespace Confined

/-- The search for a minimum pivots inside: the objective and the row that
leaves are internal. -/
theorem primalStep (h : t.Confined)
    (hstep : Tableau.primalStep goal t = .next t') :
    t'.Confined ∧ t.PivotsInside t' := by
  have hre := primalStep_restates h.canonical hstep
  obtain ⟨o, s, b, r, d, ho, hs, hb, hp, rfl⟩ := primalStep_eq_next hstep
  obtain ⟨r', -, hext, -, -⟩ := leaving?_spec hb
  have hint : o.Internal := by
    cases goal with
    | main => exact Option.some.inj ho ▸ h.separated.objective
    | auxiliary => exact h.separated.auxiliary ho
  refine ⟨⟨hre.canonical, hre.separated h.separated⟩,
    t.infeasible, b, s, hext,
    hint.not_external (ne_of_lt (entering?_spec hs).2), ?_⟩
  exact exchange?_eq_some_iff.2 ⟨r, d, hp.row, hp.definition, rfl⟩

/-- So does the repair, where it does not pass over a row: only restricted
rows are on the stack, and they are internal. -/
theorem dualStep (h : t.Confined) (hstep : Tableau.dualStep t = .next t') :
    t'.Confined
      ∧ ((∃ stack, t' = t.popped stack) ∨ t.PivotsInside t') := by
  have hre := dualStep_restates h.canonical h.separated hstep
  refine ⟨⟨hre.canonical, hre.separated h.separated⟩, ?_⟩
  obtain ⟨b, rest, hstack, ⟨rfl, -⟩ | ⟨s, r, d, -, hs, hp, rfl⟩⟩ :=
    dualStep_eq_next hstep
  · exact Or.inl ⟨rest, rfl⟩
  · have hb : b.isExternal = false :=
      h.separated.stack (hstack ▸ List.mem_cons_self ..)
    have hint : r.Internal := h.separated.rows hp.row hb
    refine Or.inr ⟨rest, b, s, hb,
      hint.not_external (ne_of_gt (dualEntering?_spec hs).2.1), ?_⟩
    exact exchange?_eq_some_iff.2 ⟨r, d, hp.row, hp.definition, rfl⟩

end Confined

-- ============================================================== the loops

/-- The tableaux that a loop comes to. -/
inductive Loop.Comes (l : Loop) : Tableau Rat → Prop where
  | start : Comes l l.start
  | next {t t' : Tableau Rat} (before : Comes l t)
      (step : l.step t = .next t') : Comes l t'

namespace Confined

variable {l : Loop}

/-- A step of a loop passes over a row or pivots inside. -/
theorem step (h : t.Confined) (hstep : l.step t = .next t') :
    t'.Confined
      ∧ ((∃ stack, t' = t.popped stack) ∨ t.PivotsInside t') := by
  cases l with
  | lower goal t₀ => exact (h.primalStep hstep).imp_right Or.inr
  | repair t₀ => exact h.dualStep hstep

/-- Whatever a loop comes to is confined if it started so. -/
theorem comes (h : l.start.Confined) (hcomes : l.Comes t) :
    t.Confined := by
  induction hcomes with
  | start => exact h
  | next _ step ih => exact (ih.step step).1

end Confined

/-- Where a loop stops the rows are what they were. -/
private theorem Loop.rows_of_stop {l : Loop} {r : Except Failure Unit}
    (hstop : l.step t = .stop t' r) : t'.rows = t.rows := by
  cases l with
  | lower goal t₀ => rw [(primalStep_eq_stop hstop).1]
  | repair t₀ =>
      obtain ⟨hok, herr⟩ := dualStep_eq_stop hstop
      cases r with
      | ok u => rw [(hok rfl).1]
      | error e =>
          obtain ⟨b, rest, r, -, rfl, -⟩ := herr e rfl
          rfl

/-- No external symbol enters or leaves in a loop. -/
theorem Confined.isBasic_run {l : Loop} (h : l.start.Confined)
    (hx : x.isExternal = true) (n : ℕ) :
    (l.run n).state.IsBasic x ↔ l.start.IsBasic x := by
  have hnext : ∀ u u' : Tableau Rat,
      u.Confined ∧ (u.IsBasic x ↔ l.start.IsBasic x) →
      l.step u = .next u' →
      u'.Confined ∧ (u'.IsBasic x ↔ l.start.IsBasic x) := by
    intro u u' hu hstep
    obtain ⟨hu, hiff⟩ := hu
    obtain ⟨hu', ⟨stack, rfl⟩ | hpivot⟩ := hu.step hstep
    · exact ⟨hu', hiff⟩
    · exact ⟨hu', (hpivot.isBasic_iff hx).trans hiff⟩
  rcases iterate_induction hnext n l.start ⟨h, Iff.rfl⟩ with
    ⟨-, -, hlast⟩ | ⟨u, ⟨-, hu⟩, hstop⟩
  · exact hlast
  · show IsBasic (iterate l.step .budgetSpent n l.start).state x ↔ _
    unfold IsBasic
    rw [Loop.rows_of_stop hstop]
    exact hu

-- ======================================================= other operations

/-- Retiring a symbol that is not external keeps external symbols
basic. -/
private theorem isBasic_retire {art : Symbol}
    (hart : art.isExternal = false) (hx : x.isExternal = true)
    (hb : t.IsBasic x) : (t.retire art).state.IsBasic x := by
  have hne : art ≠ x := (Symbol.ne_of_test hx hart).symm
  generalize ho : t.retire art = o
  cases retire_eq_iff.1 ho with
  | away => exact isBasic_purge.2 hb
  | empty => exact isBasic_without.2 ⟨hne, hb⟩
  | refused | absent => exact hb
  | pivot _ _ _ exchange =>
      obtain ⟨r, d, -, -, rfl⟩ := exchange?_eq_some_iff.1 exchange
      exact isBasic_purge.2
        (isBasic_install.2 (Or.inr (isBasic_without.2 ⟨hne, hb⟩)))

theorem Adjoinable.confined {art : Symbol} {r : Row Rat}
    (h : t.Adjoinable art r) : (t.withArtificial art r).Confined :=
  ⟨canonical_withArtificial h, separated_withArtificial h⟩

/-- Adjoining a row keeps external symbols basic. -/
theorem Adjoinable.isBasic_adjoin {art : Symbol} {r : Row Rat}
    (h : t.Adjoinable art r) (hx : x.isExternal = true)
    (hb : t.IsBasic x) : (t.adjoin n art r).state.IsBasic x := by
  by_cases hok : (t.adjoin n art r).result = .ok true
  · rw [adjoin_eq_of_ok hok]
    have hmin : IsBasic
        ((t.withArtificial art r).minimise n .auxiliary).state x :=
      (h.confined.isBasic_run (l := .lower .auxiliary _) hx n).2
        (isBasic_withArtificial.2 (Or.inr hb))
    generalize ho : t.searchWith n art r = o
    cases searchWith_eq_iff.1 ho with
    | failed minimised | above minimised =>
        rw [minimised] at hmin
        exact hmin
    | zero minimised =>
        rw [minimised] at hmin
        exact isBasic_retire h.not_external hx hmin
  · rw [adjoin_state_of_ne_ok hok]
    exact hb

/-- Dropping a marker lets an external symbol go as a last resort only:
where the marker is not basic and no restricted row mentions it. -/
theorem isBasic_dropMarker (hc : t.Canonical) {m : Symbol}
    (hm : m.isExternal = false) (hx : x.isExternal = true)
    (hb : t.IsBasic x) (h : t.dropMarker m = .ok t') :
    t'.IsBasic x ∨ ¬ t.IsBasic m ∧ ∀ b r, t.rows.get? b = some r →
      b.isExternal = false → r.coefficient m = 0 := by
  rcases dropMarker_eq_ok h with ⟨-, rfl⟩ | ⟨b, r, d, hrow, hp, rfl⟩
  · have hne : m ≠ x := (Symbol.ne_of_test hx hm).symm
    exact Or.inl (isBasic_without.2 ⟨hne, hb⟩)
  · by_cases hbx : b = x
    · subst hbx
      cases hrow with
      | falling restricted => rw [hx] at restricted; cases restricted
      | rising restricted => rw [hx] at restricted; cases restricted
      | external _ _ none_moves =>
          exact Or.inr ⟨hp.not_basic hc, none_moves⟩
    · exact Or.inl (isBasic_substitute.2 (isBasic_without.2 ⟨hbx, hb⟩))

end Tableau

namespace Solver

open Tableau (Loop Confined PivotsInside)

variable {s s₁ s₂ : Solver Rat} {goal : Nat → Rat} {n : ℕ}

theorem Consistent.confined (h : s.Consistent goal) : s.tableau.Confined :=
  ⟨h.canonical, h.separated⟩

-- ====================================================== a command's pivots

/-- The pivots that a command makes on its way, from one tableau to the
next: those of its loops, and the one by which the search for a solution
takes an artificial symbol out of the basis. -/
inductive Pivots (s : Solver Rat) :
    Command Rat → Tableau Rat → Tableau Rat → Prop where
  | loop {c : Command Rat} {l : Loop} {t t' : Tableau Rat}
      (runs : s.Runs c l) (comes : l.Comes t) (next : l.step t = .next t')
      (moved : ∀ stack, t' ≠ t.popped stack) : Pivots s c t t'
  | retire {c : Constraint Rat} {r r' : Row Rat} {f : Footprint}
      {s₁ : Solver Rat} {n : ℕ} {t t' : Tableau Rat} {x : Symbol}
      (new : s.contains c = false) (posed : s.equation c = (r, f, s₁))
      (ended : (s₁.searchLoop r).run n = .ok t ())
      (row : t.rows.get? ⟨.slack, s₁.nextId⟩ = some r')
      (first : r'.firstPivotable? = some x)
      (exchanged : ({ t with auxiliary := none } : Tableau Rat).exchange?
        ⟨.slack, s₁.nextId⟩ x = some t') :
      Pivots s (.add c) { t with auxiliary := none } t'
  | addEdit {id : Nat} {x : Variable} {strength : Strength Rat}
      {t t' : Tableau Rat}
      (h : Pivots s (.add (EditConstraint.new id x strength).constraint)
        t t') :
      Pivots s (.addEdit id x strength) t t'

private theorem confined_of_add (h : s.Consistent goal)
    {c : Constraint Rat} (hweight : 0 ≤ c.strength.value) {l : Loop}
    (hl : s.Runs (.add c) l) : l.start.Confined := by
  have hp := poses_equation h.toGrounded c
  cases hl with
  | @search _ r f s₁ new posed subject mixed =>
      rw [posed] at hp
      exact (hp.adjoinable h.separated
        (pivotFor?_eq_none hp.written.reduced subject).1).confined
  | @settle _ r f s₁ n new posed entered =>
      rw [posed] at hp
      exact (h.register hp hweight (get?_of_not_contains new)
        (hp.enters_of_ok h entered)).confined

private theorem confined_of_remove (h : s.Consistent goal)
    {c : Constraint Rat} {l : Loop} (hl : s.Runs (.remove c) l) :
    l.start.Confined := by
  cases hl with
  | remove found dropped => exact (h.withdraw found dropped).confined

/-- The loops of a command start from confined tableaux. -/
theorem Runs.confined (h : s.Consistent goal) {c : Command Rat} {l : Loop}
    (hb : c.Built) (hl : s.Runs c l) : l.start.Confined := by
  cases c with
  | add c => exact confined_of_add h hb.weight hl
  | remove c => exact confined_of_remove h hl
  | addEdit id x strength =>
      cases hl with
      | addEdit _ _ hl =>
          exact confined_of_add h (EditConstraint.weight_new id x strength)
            hl
  | removeEdit x =>
      cases hl with
      | removeEdit _ hl => exact confined_of_remove h hl
  | suggest x value =>
      cases hl with
      | @suggest _ e _ tracked =>
          obtain ⟨y, a, -, hshift⟩ := (h.edits tracked).shifts h.canonical
            (value - e.constraint.target)
          exact ⟨hshift.canonical h.canonical,
            hshift.separated h.separated⟩
  | refresh => cases hl
  | reset => cases hl

/-- What a command pivots on are symbols that are not external. -/
theorem Pivots.inside (h : s.Consistent goal) {c : Command Rat}
    {t t' : Tableau Rat} (hb : c.Built) (hp : s.Pivots c t t') :
    t.PivotsInside t' := by
  induction hp with
  | @loop c l t t' runs comes next moved =>
      have ht := Confined.comes (runs.confined h hb) comes
      obtain ⟨-, ⟨stack, heq⟩ | hpivot⟩ := ht.step next
      · exact absurd heq (moved stack)
      · exact hpivot
  | @retire c r r' f s₁ n t t' x new posed ended row first exchanged =>
      have hx := Symbol.isExternal_of_isPivotable (List.find?_some first)
      exact ⟨t.infeasible, _, x, rfl, hx, exchanged⟩
  | addEdit hp ih => exact ih (.new ..)

-- ====================================================== variables in place

/-- The variable is bound to the symbol, and the symbol is basic. -/
def Anchored (s : Solver Rat) (v : Variable) (y : Symbol) : Prop :=
  s.symbol? v = some y ∧ s.tableau.IsBasic y

/-- The marker is neither basic nor mentioned by a restricted row. -/
def LastResort (s : Solver Rat) (g : Registration Rat) : Prop :=
  ¬ s.tableau.IsBasic g.footprint.marker
    ∧ ∀ b r, s.tableau.rows.get? b = some r → b.isExternal = false →
        r.coefficient g.footprint.marker = 0

/-- The command takes everything out, or a constraint for whose marker
there are external rows only. -/
def Expels (s : Solver Rat) (c : Command Rat) : Prop :=
  c = .reset
    ∨ ∃ g ∈ (s.removedId? c).bind s.registry.get?, s.LastResort g

instance (s : Solver Rat) (g : Registration Rat) :
    Decidable (s.LastResort g) :=
  decidable_of_iff (g.footprint.marker ∉ s.tableau.rows.keys
      ∧ ∀ e ∈ s.tableau.rows.entries, e.1.isExternal = false →
        e.2.coefficient g.footprint.marker = 0)
    (and_congr (not_congr Tableau.mem_keys_iff)
      (Tableau.forall_rows_iff (P := fun b r => b.isExternal = false →
        r.coefficient g.footprint.marker = 0)).symm)

instance (s : Solver Rat) (c : Command Rat) : Decidable (s.Expels c) :=
  match c with
  | .reset => isTrue (Or.inl rfl)
  | .add _ | .remove _ | .addEdit .. | .removeEdit _ | .suggest ..
  | .refresh => decidable_of_iff _ (or_iff_right nofun).symm

section Anchored

variable {v : Variable} {y : Symbol} {c : Constraint Rat}

theorem Anchored.external (h : s.Anchored v y)
    (hcons : s.Consistent goal) : y.isExternal = true :=
  hcons.wellBound.external h.1

theorem Anchored.settle (h : s.Anchored v y) (hcons : s.Consistent goal)
    (n : ℕ) : (s.settle n).state.Anchored v y :=
  ⟨h.1, (hcons.confined.isBasic_run (l := .lower .main _)
    (h.external hcons) n).2 h.2⟩

/-- Posing and entering an equation, or refusing it, keeps the symbols of
variables in place. -/
theorem Anchored.register (h : s.Anchored v y) (hcons : s.Consistent goal)
    (hweight : 0 ≤ c.strength.value)
    (hret : ∀ e, (s.register n c).result = .error e → e.isFatal = false) :
    (s.register n c).state.Anchored v y := by
  cases hc : s.contains c with
  | true =>
      have heq : s.register n c = .error s (.duplicateConstraint c) := by
        unfold Solver.register
        rw [hc, if_pos rfl]
      rw [heq]
      exact h
  | false =>
      have hp := poses_equation hcons.toGrounded c
      have hy := h.external hcons
      generalize hq : s.equation c = q at hp
      obtain ⟨r, f, s₁⟩ := q
      dsimp only at hp
      have h₁ : s₁.Anchored v y := by
        refine ⟨hp.extend.bound h.1, ?_⟩
        rw [hp.tableau]
        exact h.2
      rw [register_eq hc hq] at hret ⊢
      rcases enter_cases hp hcons.toGrounded hcons.separated
        hcons.auxiliary n with ⟨hres, hent⟩ | ⟨hres, href⟩ | ⟨e, hres, he⟩
      · have h₂ : (s₁.enter n c r f).state.Anchored v y := by
          refine ⟨(hent.symbol? v).trans h₁.1, ?_⟩
          rcases hp.entry_cases hcons.separated hres with
            ⟨x, d, -, -, -, ht⟩ | ⟨hadj, -, ht⟩
          · rw [ht]
            exact Tableau.isBasic_install.2 (Or.inr h₁.2)
          · rw [ht]
            exact hadj.isBasic_adjoin hy h₁.2
        rw [Outcome.andThen_of_ok hres, Outcome.state_andThen_ok]
        exact Anchored.settle (s := Solver.withRegistration _ c f) h₂
          (hcons.register hp hweight (get?_of_not_contains hc) hent) n
      · unfold Outcome.andThen
        rw [hres]
        exact ⟨(href.symbol? v).trans h₁.1, href.tableau ▸ h₁.2⟩
      · have hfatal := hret e (by unfold Outcome.andThen; rw [hres])
        rw [he] at hfatal
        cases hfatal

/-- Removing a constraint keeps them in place, unless it is the last
resort. -/
theorem Anchored.remove (h : s.Anchored v y) (hcons : s.Consistent goal)
    (hret : ∀ e, (s.remove n c).result = .error e → e.isFatal = false)
    (hno : ∀ g, s.registry.get? c.id = some g → ¬ s.LastResort g) :
    (s.remove n c).state.Anchored v y := by
  rcases remove_cases hcons c n with
    ⟨-, hr⟩ | ⟨g, hg, hres, -⟩ | ⟨e, he, hfatal⟩
  · rw [hr]
    exact h
  · obtain ⟨herr, hok⟩ := remove_eq hg n
    cases ht : (s.forgive g).tableau.dropMarker g.footprint.marker with
    | error f =>
        rw [herr f ht] at hres
        cases hres
    | ok t =>
        have hm := (hcons.registered hg).fits.not_external (Or.inl rfl)
        have hcan := (hcons.forgive hg).1
        rw [hok t ht]
        refine Anchored.settle
          (s := (s.withoutRegistration c.id).withTableau t)
          ⟨h.1, ?_⟩ (hcons.withdraw hg ht) n
        rw [forgive_eq] at ht hcan
        rcases Tableau.isBasic_dropMarker hcan hm (h.external hcons)
          h.2 ht with hb | hlast
        · exact hb
        · exact absurd hlast (hno g hg)
  · rw [hret e he] at hfatal
    cases hfatal

theorem Anchored.suggest (h : s.Anchored v y)
    (hcons : s.Consistent goal) (x : Variable) (value : Rat) :
    (s.suggest n x value).state.Anchored v y := by
  unfold Solver.suggest
  cases he : s.edits.get? x with
  | none => exact h
  | some e =>
      obtain ⟨z, a, -, hshift⟩ := (hcons.edits he).shifts hcons.canonical
        (value - e.constraint.target)
      have hconf : (s.tableau.moveTarget e.footprint
          (value - e.constraint.target)).Confined :=
        ⟨hshift.canonical hcons.canonical, hshift.separated hcons.separated⟩
      exact ⟨h.1, (hconf.isBasic_run (l := .repair _) (h.external hcons)
        n).2 (hshift.isBasic_iff.2 h.2)⟩

/-- What is done to a solver after it has come to an end. -/
private theorem Anchored.andThen {ρ : Type}
    {o : Outcome (Solver Rat) (Error Rat) ρ} (h : o.state.Anchored v y)
    {f : Solver Rat → ρ → Solver Rat}
    (hf : ∀ s r, s.Anchored v y → (f s r).Anchored v y) :
    (o.andThen fun s r => .ok (f s r) ()).state.Anchored v y := by
  unfold Outcome.andThen
  split
  · exact hf _ _ h
  · exact h

/-- A command that comes to an end and does not expel keeps the symbols of
variables in place. -/
theorem Anchored.perform (h : s.Anchored v y) (hcons : s.Consistent goal)
    {c : Command Rat} (hb : c.Built) (hret : (s.perform n c).Returned)
    (hno : ¬ s.Expels c) : (s.perform n c).state.Anchored v y := by
  have hstays : ∀ i g, s.removedId? c = some i →
      s.registry.get? i = some g → ¬ s.LastResort g :=
    fun i g hi hg hlast =>
      hno (Or.inr ⟨g, Option.mem_bind_iff.2 ⟨i, hi, hg⟩, hlast⟩)
  cases c with
  | add c =>
      have hret' := fun e he =>
        hret e ((Outcome.error_andThen_ok_iff _ _).2 he)
      exact (h.register hcons hb.weight hret').andThen fun _ _ h => h
  | remove c => exact h.remove hcons hret fun g hg => hstays c.id g rfl hg
  | addEdit id x strength =>
      show (s.addEdit n id x strength).state.Anchored v y
      have hret : (s.addEdit n id x strength).Returned := hret
      unfold addEdit at hret ⊢
      split
      · exact h
      case isFalse hx =>
        rw [if_neg hx] at hret
        split
        · exact h
        case isFalse hopt =>
          rw [if_neg hopt] at hret
          have hret' := fun e he =>
            hret e ((Outcome.error_andThen_ok_iff _ _).2 he)
          have hweight := EditConstraint.weight_new id x strength
          exact (h.register hcons hweight hret').andThen fun _ _ h => h
  | removeEdit x =>
      show (s.removeEdit n x).state.Anchored v y
      have hret : (s.removeEdit n x).Returned := hret
      unfold removeEdit at hret ⊢
      cases he : s.edits.get? x with
      | none => exact h
      | some e =>
          rw [he] at hret
          have hret' := fun err herr =>
            hret err ((Outcome.error_andThen_ok_iff _ _).2 herr)
          exact (h.remove hcons hret' fun g hg =>
            hstays _ g (removedId?_removeEdit he) hg).andThen fun _ _ h => h
  | suggest x value => exact h.suggest hcons x value
  | refresh =>
      refine ⟨?_, h.2⟩
      show (s.refresh).symbol? v = some y
      unfold symbol? refresh
      dsimp only
      rw [Table.get?_map, Option.map_map]
      exact h.1
  | reset => exact absurd (Or.inl rfl) hno

end Anchored

-- ======================================================== reachable states

/-- In every state that commands lead to, no external symbol occurs in the
objective or in a row of another kind of symbol, and all pivots that a
command makes in its loops and searches are on two symbols of other kinds.
The symbol of a variable, once basic, stays basic through all commands but
a reset and removals that have external rows only for their marker. -/
theorem Reachable.confinement
    (h : Reachable (fun _ c => Command.Built c) s) :
    ((∀ x ∈ s.tableau.objective.symbols, x.isExternal = false)
        ∧ ∀ b r, s.tableau.rows.get? b = some r → b.isExternal = false →
            ∀ x ∈ r.symbols, x.isExternal = false)
      ∧ (∀ c t t', c.Built → s.Pivots c t t' → t.PivotsInside t')
      ∧ ∀ budget cs, (∀ c ∈ cs, c.Built) →
          Follows (fun s c => ¬ s.Expels c) budget s cs →
          ∀ v y, s.Anchored v y → (s.run budget cs).1.Anchored v y := by
  obtain ⟨goal, hcons⟩ := h.consistent
  refine ⟨⟨fun x hx => ?_, fun b r hr hb x hx => ?_⟩,
    fun c t t' hb hp => hp.inside hcons hb,
    fun budget cs hb hf v y hv => ?_⟩
  · exact hcons.separated.objective.not_external
      ((hcons.canonical.reduced .objective).mem_symbols_iff.1 hx)
  · exact (hcons.separated.rows hr hb).not_external
      ((hcons.canonical.reduced (.row hr)).mem_symbols_iff.1 hx)
  · clear hcons
    induction cs generalizing s with
    | nil => exact hv
    | cons c cs ih =>
        obtain ⟨hno, hends, hrest⟩ := hf
        obtain ⟨goal, hcons⟩ := h.consistent
        have hc := hb c (List.mem_cons_self ..)
        exact ih (.step budget h hc hends)
          (fun c' hc' => hb c' (List.mem_cons_of_mem c hc')) hrest
          (hv.perform hcons hc hends hno)

/-- The slider that has been pulled past its end is pulled back, and then
let go: its symbol stays basic. -/
theorem pulledSlider_confinement :
    Reachable (fun _ c => Command.Built c) pulledSlider
      ∧ (∀ c t t', c.Built → pulledSlider.Pivots c t t' → t.PivotsInside t')
      ∧ pulledSlider.Anchored slider ⟨.external, 0⟩
      ∧ (pulledSlider.run 10
          [.suggest slider 3, .removeEdit slider]).1.Anchored slider
            ⟨.external, 0⟩ := by
  have hreach : Reachable (fun _ c => Command.Built c) pulledSlider :=
    reachable_pulledSlider.mono fun _ _ may => may.1
  have hanchored : pulledSlider.Anchored slider ⟨.external, 0⟩ :=
    ⟨by decide +kernel, Tableau.mem_keys_iff.1 (by decide +kernel)⟩
  have hbuilt : ∀ c ∈ ([.suggest slider 3, .removeEdit slider] :
      List (Command Rat)), c.Built := by
    simp only [List.forall_mem_cons, List.not_mem_nil, false_imp_iff,
      implies_true, and_true, Command.Built]
  obtain ⟨-, hpivots, hruns⟩ := Reachable.confinement hreach
  exact ⟨hreach, hpivots, hanchored,
    hruns 10 _ hbuilt (by decide +kernel) slider _ hanchored⟩

/-- The one constraint of a variable has no row but that of the variable,
which leaves the basis with it. -/
example :
    let c : Constraint Rat :=
      .relate 0 (.ofVariable slider) .greaterOrEqual (.ofConstant 1)
    let s := (Solver.empty.run 10 [.add c]).1
    s.Expels (.remove c) ∧ s.tableau.rows.keys = [⟨.external, 0⟩]
      ∧ (s.perform 10 (.remove c)).state.tableau.rows.keys = [] := by
  decide +kernel

end Solver

end LinearConstraints
