/-
Arrears: what removed constraints leave in the objective.

The objective is to weigh the errors of the registered constraints, each
rewritten through the rows where it is basic (`dues`). Cell by cell it does
just that, but for what is in arrears. An equality that may be violated
brings two errors along; when it is removed the weight of its marker is
taken out of the objective, and that of the companion stays. The companion
is then the symbol of no constraint. No row mentions it, so it is worth
zero, and no command moves its cell; but the search for the minimum goes
on looking at it, until the solver is reset.

# Accounts

What is in arrears is a row of its own, kept with each state that commands
lead to (`Accounted`): a removal adds to it what the constraint leaves
behind, and no other command changes it but a reset. On the solutions of
the tableau the objective is worth the penalty and the arrears, up to a
constant, and this every command keeps (`InArrears.perform`). Neither form
mentions a basic symbol, so they have the same cells.

Main statements: `Accounted.objective_cells`, for which states nothing is
in arrears (`Reachable.squared`), and `not_always_squared`.
-/
import LinearConstraints.Proofs.Refinement
import LinearConstraints.Proofs.View

namespace LinearConstraints

-- ================================================================ cells

namespace Row

variable {r d : Row Rat} {x : Symbol}

/-- A reduced row has no cell where it has no coefficient. -/
theorem Reduced.get?_eq_none_iff (h : r.Reduced) :
    r.cells.get? x = none ↔ r.coefficient x = 0 := by
  constructor
  · exact coefficient_of_none
  · intro h0
    cases hx : r.cells.get? x with
    | none => rfl
    | some k =>
        rw [coefficient_of_get? hx] at h0
        exact absurd h0 (h x k hx)

/-- Reduced rows with the same coefficient have the same cell. -/
theorem Reduced.get?_eq (h : r.Reduced) (h' : d.Reduced)
    (hx : r.coefficient x = d.coefficient x) :
    r.cells.get? x = d.cells.get? x := by
  by_cases h0 : d.coefficient x = 0
  · rw [h.get?_eq_none_iff.2 (hx.trans h0), h'.get?_eq_none_iff.2 h0]
  · have h0' : r.coefficient x ≠ 0 := by rwa [hx]
    rw [get?_of_coefficient_ne h0, get?_of_coefficient_ne h0', hx]

theorem shift_shift (r : Row Rat) (k l : Rat) :
    (r.shift k).shift l = r.shift (k + l) := by
  simp [shift, add_assoc]

end Row

namespace Tableau

variable {t : Tableau Rat} {v : Symbol → Rat} {x : Symbol}

/-- The symbol is not basic, and no row mentions it. -/
def Absent (t : Tableau Rat) (x : Symbol) : Prop :=
  t.rows.get? x = none ∧ ∀ b r, t.rows.get? b = some r → x ∉ r.symbols

/-- The symbols of the constraint are in no row, and none but the companion
of an equality has a cell in the objective: its weight. -/
def Vacates (t : Tableau Rat) (g : Registration Rat) : Prop :=
  ∀ x, g.footprint.Mentions x → t.Absent x
    ∧ t.objective.cells.get? x
      = if g.constraint.relation = .equal ∧ x ≠ g.footprint.marker
          ∧ g.constraint.strength.value ≠ 0
        then some g.constraint.strength.value else none

/-- Adds weighted symbols to a form one by one, each rewritten through the
rows. -/
def addSymbols (t : Tableau Rat) (form : Row Rat)
    (weights : List (Symbol × Rat)) : Row Rat :=
  weights.foldl (fun acc e => t.addSymbol acc e.1 e.2) form

theorem value_addSymbols (hv : t.Solves v) (r : Row Rat)
    (l : List (Symbol × Rat)) :
    (t.addSymbols r l).value v
      = r.value v + (l.map fun e => v e.1 * e.2).sum := by
  induction l generalizing r with
  | nil => simp [addSymbols]
  | cons e l ih =>
      have hstep := ih (t.addSymbol r e.1 e.2)
      rw [value_addSymbol hv] at hstep
      rw [List.map_cons, List.sum_cons, ← add_assoc]
      exact hstep

theorem reduced_addSymbols {r : Row Rat} (h : r.Reduced)
    (t : Tableau Rat) (l : List (Symbol × Rat)) :
    (t.addSymbols r l).Reduced := by
  induction l generalizing r with
  | nil => exact h
  | cons e l ih => exact ih (reduced_addSymbol h t e.1 e.2)

/-- What is added does not depend on the form that it is added to. -/
theorem coefficient_addSymbols (t : Tableau Rat) (r : Row Rat)
    (l : List (Symbol × Rat)) (x : Symbol) :
    (t.addSymbols r l).coefficient x = r.coefficient x
      + (t.addSymbols (.ofConstant 0) l).coefficient x := by
  have hone : ∀ (r : Row Rat) (e : Symbol × Rat),
      (t.addSymbol r e.1 e.2).coefficient x = r.coefficient x
        + (t.addSymbol (.ofConstant 0) e.1 e.2).coefficient x := by
    intro r e
    unfold addSymbol
    cases t.rows.get? e.1 with
    | none => simp [Row.coefficient_addCell]
    | some d => simp [Row.coefficient_addRow]
  induction l generalizing r with
  | nil => simp [addSymbols]
  | cons e l ih =>
      have hr := ih (t.addSymbol r e.1 e.2)
      have h0 := ih (t.addSymbol (.ofConstant 0) e.1 e.2)
      rw [hone] at hr
      show (t.addSymbols (t.addSymbol r e.1 e.2) l).coefficient x = _
        + (t.addSymbols (t.addSymbol (.ofConstant 0) e.1 e.2)
            l).coefficient x
      rw [hr, h0, add_assoc]

/-- A symbol that is not added, and that no row mentions, has no part in
the sum. -/
theorem coefficient_addSymbols_eq_zero {r : Row Rat}
    {l : List (Symbol × Rat)} (hr : r.coefficient x = 0)
    (hd : ∀ b d, t.rows.get? b = some d → d.coefficient x = 0)
    (hl : ∀ e ∈ l, t.rows.get? e.1 = none → e.1 ≠ x) :
    (t.addSymbols r l).coefficient x = 0 := by
  induction l generalizing r with
  | nil => exact hr
  | cons e l ih =>
      obtain ⟨he, hl⟩ := List.forall_mem_cons.1 hl
      exact ih (coefficient_addSymbol_eq_zero e.2 hr (fun d => hd e.1 d) he)
        hl

end Tableau

-- ================================================================= dues

/-- The error symbols of a constraint that may be violated. -/
def Registration.errorSymbols (g : Registration Rat) : List Symbol :=
  if g.constraint.strength.isRequired then []
  else (g.footprint.marker :: g.footprint.companion.toList).filter
    Symbol.isError

namespace Solver

variable {s s' : Solver Rat} {goal goal' : Nat → Rat} {rest : Row Rat}
  {budget : Nat} {x : Symbol} {i : Nat} {g : Registration Rat}

/-- The error symbols of the registered constraints, with their
weights. -/
def weights (s : Solver Rat) : List (Symbol × Rat) :=
  s.registry.values.flatMap fun g =>
    g.errorSymbols.map (·, g.constraint.strength.value)

/-- What the objective should be if something is in arrears: that, and the
weighted errors of the registered constraints, rewritten through the
rows. -/
def dues (s : Solver Rat) (rest : Row Rat) : Row Rat :=
  s.tableau.addSymbols rest s.weights

/-- Nothing is in arrears: the cells of the objective are those of the
weighted errors of the registered constraints. -/
def Squared (s : Solver Rat) : Prop :=
  ∀ x, s.tableau.objective.cells.get? x
    = (s.dues (.ofConstant 0)).cells.get? x

/-- The error symbols of a constraint are symbols of its own. -/
theorem mentions_of_mem_errorSymbols (h : x ∈ g.errorSymbols) :
    g.footprint.Mentions x := by
  unfold Registration.errorSymbols at h
  split at h
  · cases h
  · have hx := List.mem_of_mem_filter h
    rw [List.mem_cons, Option.mem_toList] at hx
    exact hx

/-- The weighted errors of a constraint add up to its penalty. -/
theorem sum_errorSymbols (h : g.constraint.Fits g.footprint)
    (v : Symbol → Rat) :
    (g.errorSymbols.map fun x => v x * g.constraint.strength.value).sum
      = g.penalty v := by
  unfold Registration.penalty Registration.errorSymbols
  cases hreq : g.constraint.strength.isRequired with
  | true => simp [h.errors_eq_zero hreq]
  | false =>
      unfold Footprint.errors
      cases h with
      | dummy _ required => rw [hreq] at required; cases required
      | slack _ required => rw [hreq] at required; cases required
      | errors y _ _ marker companion kind =>
          simp [companion, Symbol.isError_of_kind marker,
            Symbol.isError_of_kind kind]
          ring
      | slackened y _ _ marker companion kind =>
          simp [companion, Symbol.isError_of_kind kind, mul_comm,
            Symbol.not_isError_of_kind marker (by decide)]

theorem mem_weights {e : Symbol × Rat} (h : e ∈ s.weights) :
    ∃ i g, s.registry.get? i = some g ∧ g.footprint.Mentions e.1 := by
  obtain ⟨g, hg, he⟩ := List.mem_flatMap.1 h
  obtain ⟨x, hx, rfl⟩ := List.mem_map.1 he
  obtain ⟨⟨i, g'⟩, hi, rfl⟩ := List.mem_map.1 hg
  exact ⟨i, g', Table.get?_eq_some_iff.2 hi,
    mentions_of_mem_errorSymbols hx⟩

theorem sum_weights (h : s.Orderly) (v : Symbol → Rat) :
    (s.weights.map fun e => v e.1 * e.2).sum = s.penalty v := by
  have key : ∀ l : List (Registration Rat),
      (∀ g ∈ l, g.constraint.Fits g.footprint) →
      ((l.flatMap fun g => g.errorSymbols.map
          (·, g.constraint.strength.value)).map fun e => v e.1 * e.2).sum
        = (l.map fun g => g.penalty v).sum := by
    intro l
    induction l with
    | nil => intro _; rfl
    | cons g l ih =>
        intro hl
        obtain ⟨hg, hl⟩ := List.forall_mem_cons.1 hl
        have hsum := sum_errorSymbols hg v
        rw [List.flatMap_cons, List.map_append, List.sum_append, ih hl,
          List.map_map, List.map_cons, List.sum_cons]
        exact congrArg (· + _) hsum
  have hfits : ∀ g ∈ s.registry.values, g.constraint.Fits g.footprint := by
    intro g hg
    obtain ⟨⟨i, g'⟩, hi, rfl⟩ := List.mem_map.1 hg
    exact (h.registered (Table.get?_eq_some_iff.2 hi)).fits
  unfold weights penalty
  rw [key _ hfits, Table.sum_values]

/-- On the solutions the dues are worth the penalty and the arrears. -/
theorem value_dues (h : s.Orderly) {v : Symbol → Rat}
    (hv : s.tableau.Solves v) (rest : Row Rat) :
    (s.dues rest).value v = rest.value v + s.penalty v := by
  unfold dues
  rw [Tableau.value_addSymbols hv, sum_weights h]

-- ======================================================= stray symbols

/-- A symbol that belongs to no constraint and stands for no variable is
not in use. -/
theorem Free.not_inUse (h : s.Free x) (hx : x.isExternal = false) :
    ¬ s.InUse x := by
  intro huse
  rcases huse with ⟨hext, -⟩ | ⟨i, g, hi, hm⟩
  · rw [hx] at hext
    cases hext
  · exact h i g hi hm

/-- No row defines or mentions a symbol that is not in use. -/
theorem Consistent.absent (h : s.Consistent goal) (hx : ¬ s.InUse x) :
    s.tableau.Absent x := by
  constructor
  · apply Tableau.not_isBasic_iff.1
    intro hbasic
    obtain ⟨r, hr⟩ := hbasic
    exact hx (h.inUse_of_row hr (Or.inl rfl))
  · intro b r hr hmem
    exact hx (h.inUse_of_row hr (Or.inr hmem))

/-- What is in arrears is in no row. -/
theorem Leftover.absent (h : s.Leftover rest) (hcons : s.Consistent goal)
    (hx : rest.coefficient x ≠ 0) : s.tableau.Absent x := by
  obtain ⟨-, hkind, -, hfree⟩ := h x hx
  exact hcons.absent (hfree.not_inUse
    (Symbol.isExternal_of_kind hkind (by decide)))

/-- A symbol that belongs to nothing is due only for what is in
arrears. -/
theorem coefficient_dues_of_free (hcons : s.Consistent goal)
    (hx : s.Free x) (habsent : s.tableau.Absent x) :
    (s.dues rest).coefficient x = rest.coefficient x := by
  obtain ⟨-, hrows⟩ := habsent
  have hzero : (s.dues (.ofConstant 0)).coefficient x = 0 := by
    refine Tableau.coefficient_addSymbols_eq_zero
      (Row.coefficient_ofConstant 0 x) (fun b d hd => ?_) fun e he _ => ?_
    · by_contra h0
      exact hrows b d hd
        ((hcons.canonical.reduced (.row hd)).mem_symbols_iff.2 h0)
    · obtain ⟨i, g, hi, hm⟩ := mem_weights he
      exact fun heq => hx i g hi (heq ▸ hm)
  have hsum := Tableau.coefficient_addSymbols s.tableau rest s.weights x
  unfold dues at hzero ⊢
  rw [hsum, hzero, add_zero]

-- ============================================================= arrears

/-- On the solutions of the tableau the objective is worth the penalty and
what is in arrears, up to a constant. -/
structure InArrears (s : Solver Rat) (rest : Row Rat) : Prop where
  leftover : s.Leftover rest
  reduced : rest.Reduced
  owes : ∃ k, s.Owes (rest.shift k)

namespace InArrears

/-- The cells of the objective are those of the dues. -/
theorem get?_objective (h : s.InArrears rest) (hcons : s.Consistent goal)
    (x : Symbol) : s.tableau.objective.cells.get? x
      = (s.dues rest).cells.get? x := by
  have hcan := hcons.canonical
  obtain ⟨k, howes⟩ := h.owes
  have hnonbasic : ∀ y, s.tableau.IsBasic y →
      (s.dues rest).coefficient y = 0 := by
    intro y hy
    obtain ⟨d', hd'⟩ := hy
    refine Tableau.coefficient_addSymbols_eq_zero ?_
      (fun b d hd => hcan.nonbasic (.row hd) ⟨d', hd'⟩) fun e _ hnone => ?_
    · by_contra h0
      rw [(h.leftover.absent hcons h0).1] at hd'
      cases hd'
    · intro heq
      rw [heq, hd'] at hnone
      cases hnone
  -- Neither form mentions a basic symbol, so they agree everywhere.
  have hvalue : ∀ w, s.tableau.objective.value w
      = ((s.dues rest).shift k).value w + 0 := by
    intro w
    have hv := hcan.solves_complete w
    have hw := howes _ hv
    have hd := value_dues hcons.toOrderly hv rest
    rw [hcan.value_complete .objective, Row.value_shift] at hw
    rw [Tableau.value_complete_of_nonbasic hnonbasic] at hd
    rw [Row.value_shift, hw, hd]
    ring
  obtain ⟨-, hcoefficient⟩ :=
    Row.coefficient_of_value (φ := fun _ => 0) hvalue rfl
  refine (hcan.reduced .objective).get?_eq
    (Tableau.reduced_addSymbols h.reduced _ _) ?_
  rw [hcoefficient x, add_zero]
  rfl

/-- Nothing is in arrears exactly if the row of arrears has no cell. -/
theorem squared_iff (h : s.InArrears rest) (hcons : s.Consistent goal) :
    s.Squared ↔ ∀ x, rest.coefficient x = 0 := by
  have hred : ∀ {r : Row Rat}, r.Reduced → (s.dues r).Reduced :=
    fun hr => Tableau.reduced_addSymbols hr _ _
  have hsum := fun x =>
    Tableau.coefficient_addSymbols s.tableau rest s.weights x
  constructor
  · intro hsq x
    by_contra h0
    obtain ⟨-, hkind, -, hfree⟩ := h.leftover x h0
    have habsent := h.leftover.absent hcons h0
    have hcell := (h.get?_objective hcons x).symm.trans (hsq x)
    have hnone : (s.dues (.ofConstant 0)).cells.get? x = none := by
      rw [(hred (Row.reduced_ofConstant 0)).get?_eq_none_iff,
        coefficient_dues_of_free hcons hfree habsent,
        Row.coefficient_ofConstant]
    rw [hnone, (hred h.reduced).get?_eq_none_iff,
      coefficient_dues_of_free hcons hfree habsent] at hcell
    exact h0 hcell
  · intro hzero x
    rw [h.get?_objective hcons x]
    refine (hred h.reduced).get?_eq (hred (Row.reduced_ofConstant 0)) ?_
    have := hsum x
    rwa [hzero x, zero_add] at this

-- ============================================================ commands

/-- Only the symbols given out, the registry and the tableau count. -/
theorem congr (h : s.InArrears rest) (hn : s'.nextId = s.nextId)
    (hr : s'.registry = s.registry) (ht : s'.tableau = s.tableau) :
    s'.InArrears rest where
  leftover := h.leftover.mono hn.ge fun _ hfree i g hi =>
    hfree i g (hr ▸ hi)
  reduced := h.reduced
  owes := by
    obtain ⟨k, hk⟩ := h.owes
    refine ⟨k, fun v hv => ?_⟩
    rw [ht] at hv ⊢
    rw [hk v hv]
    unfold penalty
    rw [hr]

theorem restate (h : s.InArrears rest) {t : Tableau Rat}
    (hre : s.tableau.Restates t) : (s.withTableau t).InArrears rest where
  leftover := h.leftover
  reduced := h.reduced
  owes := h.owes.imp fun _ hk => hk.restate hre

theorem settle (h : s.InArrears rest) (hcons : s.Consistent goal)
    (budget : Nat) : (s.settle budget).state.InArrears rest :=
  h.restate (Tableau.minimise_restates budget .main hcons.canonical)

/-- Registering a constraint, or refusing it, changes nothing. -/
theorem register (h : s.InArrears rest) (hcons : s.Consistent goal)
    {c : Constraint Rat} (hweight : 0 ≤ c.strength.value)
    (hends : (s.register budget c).Returned) :
    (s.register budget c).state.InArrears rest := by
  cases hc : s.contains c with
  | true =>
      unfold Solver.register
      rw [if_pos hc]
      exact h
  | false =>
      have hnew := get?_of_not_contains hc
      have hp := poses_equation hcons.toGrounded c
      generalize hq : s.equation c = q at hp
      obtain ⟨r, f, s₁⟩ := q
      dsimp only at hp
      rw [register_eq hc hq] at hends ⊢
      rcases enter_cases hp hcons.toGrounded hcons.separated
          hcons.auxiliary budget with
        ⟨hres, hent⟩ | ⟨hres, href⟩ | ⟨e, hres, hfatal⟩
      · have hcons' := hcons.register hp hweight hnew hent
        have hregistered : ((s₁.enter budget c r f).state.withRegistration
            c f).InArrears rest :=
          ⟨h.leftover.register hp hent, h.reduced,
            h.owes.imp fun _ hk => hk.register hp hnew hent⟩
        rw [Outcome.andThen_of_ok hres, Outcome.state_andThen_ok]
        exact hregistered.settle hcons' budget
      · have hext := hp.extend.trans href.extend
        obtain ⟨ht, ho⟩ := hp.objective_of_refuses href
        unfold Outcome.andThen
        rw [hres]
        exact ⟨h.leftover.extend hext, h.reduced,
          h.owes.imp fun _ hk => hk.extend hext ht ho⟩
      · have herror : ((s₁.enter budget c r f).andThen fun s₂ _ =>
            ((s₂.withRegistration c f).settle budget).andThen fun s₃ _ =>
              .ok s₃ f).result = .error e := by
          unfold Outcome.andThen
          rw [hres]
        rw [hends e herror] at hfatal
        cases hfatal

/-- Removing a constraint adds what it leaves behind. -/
theorem remove (h : s.InArrears rest) (hcons : s.Consistent goal)
    {c : Constraint Rat} (hends : (s.remove budget c).Returned) :
    (s.remove budget c).state.InArrears
      ((s.registry.get? c.id).elim rest fun g => g.leaves rest) := by
  rcases remove_cases hcons c budget with
    ⟨hnone, heq⟩ | ⟨g, hi, hok, -⟩ | ⟨e, he, hfatal⟩
  · rw [heq, hnone]
    exact h
  · obtain ⟨herr, hdrop⟩ := remove_eq hi budget
    cases ht : (s.forgive g).tableau.dropMarker g.footprint.marker with
    | error f =>
        rw [herr f ht] at hok
        cases hok
    | ok t =>
        obtain ⟨hcan, -, -⟩ := hcons.forgive hi
        have hext := (hcons.registered hi).fits.not_external (Or.inl rfl)
        have hel := Tableau.eliminates_of_dropMarker hcan hext ht
        rw [hdrop t ht, hi]
        refine InArrears.settle ⟨?_, ?_, ?_⟩ (hcons.withdraw hi ht) budget
        · exact h.leftover.leaves hcons.toOrderly hi
        · exact reduced_leaves h.reduced g
        · obtain ⟨k, hk⟩ := h.owes
          refine ⟨k, fun v hv => ?_⟩
          have hv := hk.withdraw (h.leftover.shift k) hcons hi hel v hv
          rw [value_leaves, Row.value_shift] at hv
          rw [Option.elim_some, Row.value_shift, value_leaves, hv]
          ring
  · rw [hends e he] at hfatal
    cases hfatal

/-- A suggestion moves the objective by a constant. -/
theorem suggest (h : s.InArrears rest) (hcons : s.Consistent goal)
    (v : Variable) (value : Rat) :
    (s.suggest budget v value).state.InArrears rest := by
  unfold Solver.suggest
  cases he : s.edits.get? v with
  | none => exact h
  | some e =>
      obtain ⟨z, a, hz, hshift⟩ := (hcons.edits he).shifts hcons.canonical
        (value - e.constraint.target)
      have hmoved : (s.withTableau (s.tableau.moveTarget e.footprint
          (value - e.constraint.target))).InArrears rest := by
        obtain ⟨k, hk⟩ := h.owes
        have hk := hk.shift hshift
        rw [Row.shift_shift] at hk
        exact ⟨h.leftover, h.reduced, _, hk⟩
      have hrestored := hmoved.restate (Tableau.restore_restates budget
        (hshift.canonical hcons.canonical)
        (hshift.separated hcons.separated))
      exact hrestored.congr rfl rfl rfl

end InArrears

theorem inArrears_empty :
    (empty : Solver Rat).InArrears (.ofConstant 0) where
  leftover := fun x h0 => absurd (Row.coefficient_ofConstant 0 x) h0
  reduced := Row.reduced_ofConstant 0
  owes := by
    refine ⟨0, fun v _ => ?_⟩
    rw [Row.value_shift, add_zero]
    exact (zero_add _).symm

/-- What is in arrears after a command: what the constraint that it takes
out leaves behind comes in addition, and a reset begins anew. -/
def accrue (s : Solver Rat) (rest : Row Rat) : Command Rat → Row Rat
  | .reset => .ofConstant 0
  | c => ((s.removedId? c).bind s.registry.get?).elim rest fun g =>
      g.leaves rest

theorem accrue_of_ne_reset {c : Command Rat} (hc : c ≠ .reset) :
    s.accrue rest c = ((s.removedId? c).bind s.registry.get?).elim rest
      fun g => g.leaves rest := by
  cases c with
  | reset => exact absurd rfl hc
  | _ => rfl

/-- Commands that come to an end keep the account. -/
theorem InArrears.perform (h : s.InArrears rest) (hcons : s.Consistent goal)
    {c : Command Rat} (hb : c.Built) (hends : (s.perform budget c).Returned) :
    (s.perform budget c).state.InArrears (s.accrue rest c) := by
  cases c with
  | add c =>
      have hreg : (s.register budget c).Returned := fun e he =>
        hends e ((Outcome.error_andThen_ok_iff _ _).2 he)
      show (s.add budget c).state.InArrears rest
      unfold Solver.add
      rw [Outcome.state_andThen_ok]
      exact h.register hcons (Constraint.Built.weight hb) hreg
  | remove c => exact h.remove hcons hends
  | addEdit id v strength =>
      show (s.addEdit budget id v strength).state.InArrears rest
      have hends : (s.addEdit budget id v strength).Returned := hends
      unfold Solver.addEdit at hends ⊢
      split
      · exact h
      case isFalse hedited =>
        rw [if_neg hedited] at hends
        split
        · exact h
        case isFalse hreq =>
          rw [if_neg hreq] at hends
          have hreg := h.register hcons
            (EditConstraint.weight_new id v strength) fun e he =>
              hends e ((Outcome.error_andThen_ok_iff _ _).2 he)
          dsimp only
          unfold Outcome.andThen
          split
          · exact hreg.congr rfl rfl rfl
          · exact hreg
  | removeEdit v =>
      have hends : (s.removeEdit budget v).Returned := hends
      show (s.removeEdit budget v).state.InArrears
        ((((s.edits.get? v).map fun e => e.constraint.constraint.id).bind
          s.registry.get?).elim rest fun g => g.leaves rest)
      unfold Solver.removeEdit at hends ⊢
      cases he : s.edits.get? v with
      | none => exact h
      | some e =>
          rw [he] at hends
          have hrem := h.remove hcons (c := e.constraint.constraint)
            fun e' he' => hends e'
              ((Outcome.error_andThen_ok_iff _ _).2 he')
          dsimp only
          unfold Outcome.andThen
          split
          · exact hrem.congr rfl rfl rfl
          · exact hrem
  | suggest v value => exact h.suggest hcons v value
  | refresh => exact h.congr rfl rfl rfl
  | reset => exact inArrears_empty

-- ============================================================= accounts

/-- The states that built commands lead to as long as they come to an end,
each with what is in arrears. -/
inductive Accounted : Solver Rat → Row Rat → Prop where
  | empty : Accounted .empty (.ofConstant 0)
  | step {s : Solver Rat} {rest : Row Rat} {c : Command Rat} (budget : Nat)
      (before : Accounted s rest) (may : c.Built)
      (ends : (s.perform budget c).Returned) :
      Accounted (s.perform budget c).state (s.accrue rest c)

/-- An account is kept of every reachable state, and of no other. -/
theorem exists_accounted_iff :
    (∃ rest, Accounted s rest)
      ↔ Reachable (fun _ c => Command.Built c) s := by
  constructor
  · intro hsome
    obtain ⟨rest, h⟩ := hsome
    induction h with
    | empty => exact .empty
    | step budget _ may ends ih => exact .step budget ih may ends
  · intro h
    induction h with
    | empty => exact ⟨_, .empty⟩
    | step budget _ may ends ih =>
        obtain ⟨rest, hrest⟩ := ih
        exact ⟨_, .step budget hrest may ends⟩

/-- The account is right. -/
theorem Accounted.inArrears (h : Accounted s rest) :
    ∃ goal, s.Consistent goal ∧ s.InArrears rest := by
  induction h with
  | empty => exact ⟨fun _ => 0, consistent_empty _, inArrears_empty⟩
  | step budget _ may ends ih =>
      obtain ⟨goal, hcons, h⟩ := ih
      obtain ⟨goal', ht⟩ := transition_of_returned hcons may ends
      exact ⟨goal', ht.consistent, h.perform hcons may ends⟩

-- ============================================================= removals

/-- The command takes out an equality that may be violated and has a
weight. -/
def Sheds (s : Solver Rat) (c : Command Rat) : Prop :=
  ∃ i g, s.removedId? c = some i ∧ s.registry.get? i = some g
    ∧ g.constraint.relation = .equal
    ∧ g.constraint.strength.isRequired = false
    ∧ g.constraint.strength.value ≠ 0

/-- A command that takes a constraint out erases its registration. -/
theorem registry_of_removedId? {c : Command Rat}
    (hc : s.removedId? c = some i) (hi : s.registry.get? i = some g)
    (budget : Nat) :
    (s.perform budget c).state.registry = s.registry.erase i := by
  have hremove : ∀ {c : Constraint Rat}, c.id = i →
      (s.remove budget c).state.registry = s.registry.erase i := by
    rintro c rfl
    rcases remove_view budget s c with ⟨hnone, -⟩ | ⟨-, hview, -⟩
    · rw [hi] at hnone
      cases hnone
    · exact hview.registry
  cases c with
  | remove c => exact hremove (Option.some.inj hc)
  | removeEdit v =>
      obtain ⟨e, he, hid⟩ := Option.map_eq_some_iff.1 hc
      show (s.removeEdit budget v).state.registry = _
      unfold Solver.removeEdit
      rw [he]
      dsimp only
      unfold Outcome.andThen
      split
      · exact hremove hid
      · exact hremove hid
  | add c => cases hc
  | addEdit id v strength => cases hc
  | suggest v value => cases hc
  | refresh => cases hc
  | reset => cases hc

/-- Nothing is in arrears once a constraint has been taken out exactly if
nothing was, and it is no equality that may be violated and has a
weight. -/
theorem Leftover.leaves_eq_zero_iff (h : s.Leftover rest) (ho : s.Orderly)
    (hi : s.registry.get? i = some g) :
    (∀ x, (g.leaves rest).coefficient x = 0)
      ↔ (∀ x, rest.coefficient x = 0)
        ∧ ¬ (g.constraint.relation = .equal
          ∧ g.constraint.strength.isRequired = false
          ∧ g.constraint.strength.value ≠ 0) := by
  have hr := ho.registered hi
  constructor
  · intro hall
    refine ⟨fun x => ?_, fun hsheds => ?_⟩
    · by_cases hx : g.footprint.companion = some x
      · exact h.coefficient_eq_zero hi (Or.inr hx)
      · rw [← coefficient_leaves_of_ne hx rest]
        exact hall x
    · obtain ⟨hrel, hoptional, hne⟩ := hsheds
      obtain ⟨y, hy⟩ := hr.fits.exists_companion_iff.2 hoptional
      have hym : y ≠ g.footprint.marker := by
        intro heq
        subst heq
        exact hr.apart hy
      have hzero := hall y
      rw [h.coefficient_leaves ho hi (Or.inr hy), if_pos ⟨hrel, hym⟩]
        at hzero
      exact hne hzero
  · intro hboth x
    obtain ⟨hzero, hno⟩ := hboth
    by_cases hx : g.footprint.companion = some x
    · rw [h.coefficient_leaves ho hi (Or.inr hx)]
      split
      case isTrue hrel =>
        by_contra hne
        exact hno ⟨hrel.1, hr.fits.exists_companion_iff.1 ⟨x, hx⟩, hne⟩
      · rfl
    · rw [coefficient_leaves_of_ne hx]
      exact hzero x

/-- Nothing is in arrears after a reset, or if nothing was before and the
command takes no such equality out. -/
theorem Leftover.accrue_eq_zero_iff (h : s.Leftover rest) (ho : s.Orderly)
    (c : Command Rat) :
    (∀ x, (s.accrue rest c).coefficient x = 0)
      ↔ c = .reset ∨ (∀ x, rest.coefficient x = 0) ∧ ¬ s.Sheds c := by
  by_cases hreset : c = .reset
  · subst hreset
    exact iff_of_true (Row.coefficient_ofConstant 0) (Or.inl rfl)
  · rw [accrue_of_ne_reset hreset, or_iff_right hreset]
    cases hfound : (s.removedId? c).bind s.registry.get? with
    | none =>
        have hno : ¬ s.Sheds c := by
          intro hsheds
          obtain ⟨i, g, hc, hi, -⟩ := hsheds
          rw [hc, Option.bind_some, hi] at hfound
          cases hfound
        exact (and_iff_left hno).symm
    | some g =>
        obtain ⟨i, hc, hi⟩ := Option.bind_eq_some_iff.1 hfound
        refine (h.leaves_eq_zero_iff ho hi).trans
          (and_congr_right fun _ => not_congr ?_)
        constructor
        · exact fun hg => ⟨i, g, hc, hi, hg⟩
        · intro hsheds
          obtain ⟨i', g', hc', hi', hg⟩ := hsheds
          obtain rfl := Option.some.inj (hc.symm.trans hc')
          obtain rfl := Option.some.inj (hi.symm.trans hi')
          exact hg

/-- Nothing is in arrears as long as no such equality is taken out. -/
theorem Reachable.squared
    (h : Reachable (fun s c => Command.Built c ∧ ¬ s.Sheds c) s) :
    s.Squared := by
  have hzero : ∃ goal rest, s.Consistent goal ∧ s.InArrears rest
      ∧ ∀ x, rest.coefficient x = 0 := by
    induction h with
    | empty =>
        exact ⟨fun _ => 0, _, consistent_empty _, inArrears_empty,
          Row.coefficient_ofConstant 0⟩
    | step budget _ may ends ih =>
        obtain ⟨goal, rest, hcons, h, hzero⟩ := ih
        obtain ⟨goal', ht⟩ := transition_of_returned hcons may.1 ends
        refine ⟨goal', _, ht.consistent, h.perform hcons may.1 ends, ?_⟩
        apply (h.leftover.accrue_eq_zero_iff hcons.toOrderly _).2
        exact Or.inr ⟨hzero, may.2⟩
  obtain ⟨goal, rest, hcons, h, hzero⟩ := hzero
  exact (h.squared_iff hcons).2 hzero

/-- A constraint that has been taken out vacates the tableau, but for its
companion. -/
theorem InArrears.vacates (h : s.InArrears rest) (hcons : s.Consistent goal)
    (hi : s.registry.get? i = some g)
    (h' : s'.InArrears (g.leaves rest)) (hcons' : s'.Consistent goal')
    (hr : s'.registry = s.registry.erase i) : s'.tableau.Vacates g := by
  intro x hx
  have hfree : s'.Free x := by
    intro j g' hj
    rw [hr] at hj
    exact hcons.toOrderly.free_withoutRegistration hi hx j g' hj
  have habsent := hcons'.absent
    (hfree.not_inUse ((hcons.registered hi).fits.not_external hx))
  have hred : (s'.dues (g.leaves rest)).Reduced :=
    Tableau.reduced_addSymbols h'.reduced _ _
  have hcoefficient : (s'.dues (g.leaves rest)).coefficient x
      = (g.leaves rest).coefficient x :=
    coefficient_dues_of_free hcons' hfree habsent
  rw [h.leftover.coefficient_leaves hcons.toOrderly hi hx] at hcoefficient
  refine ⟨habsent, ?_⟩
  rw [h'.get?_objective hcons' x]
  split
  case isTrue hkept =>
    rw [if_pos ⟨hkept.1, hkept.2.1⟩] at hcoefficient
    rw [Row.get?_of_coefficient_ne (hcoefficient ▸ hkept.2.2), hcoefficient]
  case isFalse hno =>
    rw [hred.get?_eq_none_iff, hcoefficient]
    split
    case isTrue hrel =>
      by_contra hne
      exact hno ⟨hrel.1, hrel.2, hne⟩
    · rfl

/-- The cells of the objective are those of the weighted errors of the
registered constraints and of what is in arrears, which are errors of no
constraint and in no row. A command leaves nothing in arrears if it is a
reset, or if nothing was and it takes out no weighted equality that may be
violated. What it takes out vacates the tableau, but for the companion of
such an equality. -/
theorem Accounted.objective_cells (h : Accounted s rest) :
    (∀ x, s.tableau.objective.cells.get? x = (s.dues rest).cells.get? x)
      ∧ (∀ x k, rest.cells.get? x = some k →
          0 < k ∧ x.kind = .error ∧ s.Free x ∧ s.tableau.Absent x)
      ∧ ∀ (c : Command Rat) (budget : Nat), c.Built →
          (s.perform budget c).Returned →
          ((s.perform budget c).state.Squared
              ↔ c = .reset ∨ s.Squared ∧ ¬ s.Sheds c)
            ∧ ∀ i g, s.removedId? c = some i → s.registry.get? i = some g →
              (s.perform budget c).state.tableau.Vacates g := by
  obtain ⟨goal, hcons, harrears⟩ := h.inArrears
  refine ⟨harrears.get?_objective hcons, fun x k hk => ?_,
    fun c budget hb hends => ?_⟩
  · have hne := harrears.reduced x k hk
    have hcoefficient := Row.coefficient_of_get? hk
    rw [← hcoefficient] at hne
    obtain ⟨hnonneg, hkind, -, hfree⟩ := harrears.leftover x hne
    refine ⟨?_, hkind, hfree, harrears.leftover.absent hcons hne⟩
    rw [← hcoefficient]
    exact lt_of_le_of_ne hnonneg (Ne.symm hne)
  · obtain ⟨goal', hcons', harrears'⟩ :=
      (Accounted.step budget h hb hends).inArrears
    refine ⟨?_, fun i g hc hi => ?_⟩
    · rw [harrears'.squared_iff hcons', harrears.squared_iff hcons]
      exact harrears.leftover.accrue_eq_zero_iff hcons.toOrderly c
    · have haccrue : s.accrue rest c = g.leaves rest := by
        have hreset : c ≠ .reset := by
          rintro rfl
          cases hc
        rw [accrue_of_ne_reset hreset, hc, Option.bind_some, hi]
        rfl
      exact harrears.vacates hcons hi (haccrue ▸ harrears') hcons'
        (registry_of_removedId? hc hi budget)

/-- Puts the slider at a twentieth, if possible. -/
def twentieth : Constraint Rat := .new 0 ⟨[⟨slider, 100⟩], -5⟩ .equal .strong

/-- A slider that is held at a twentieth, as far as two bounds let it. -/
def heldSlider : Solver Rat :=
  (((empty.perform 10 (.add twentieth)).state.perform 10
    (.add (.new 1 ⟨[⟨slider, 9⟩], 2⟩ .lessOrEqual .required))).state.perform
      10 (.add (.new 2 ⟨[⟨slider, -1⟩], -3⟩ .greaterOrEqual .weak))).state

theorem accounted_heldSlider : Accounted heldSlider (.ofConstant 0) :=
  .step 10 (.step 10 (.step 10 .empty (.new ..) (by decide +kernel))
    (.new ..) (by decide +kernel)) (.new ..) (by decide +kernel)

/-- Once it is let go, the weight of one of its two errors stays in the
objective. -/
theorem heldSlider_objective_cells :
    Accounted heldSlider (.ofConstant 0)
      ∧ heldSlider.Squared
      ∧ heldSlider.Sheds (.remove twentieth)
      ∧ (heldSlider.perform 10 (.remove twentieth)).Returned
      ∧ ¬ (heldSlider.perform 10 (.remove twentieth)).state.Squared
      ∧ (∃ g ∈ heldSlider.registry.get? 0,
          (heldSlider.perform 10 (.remove twentieth)).state.tableau.Vacates g)
      ∧ (heldSlider.perform 10
          (.remove twentieth)).state.tableau.objective.cells.get?
          ⟨.error, 2⟩ = some 1000000 := by
  have hread : (heldSlider.registry.get? 0).map (fun g =>
      (g.footprint, g.constraint.relation, g.constraint.strength.value))
        = some (⟨⟨.error, 1⟩, some ⟨.error, 2⟩⟩, .equal, 1000000) := by
    decide +kernel
  obtain ⟨g, hi, hg⟩ := Option.map_eq_some_iff.1 hread
  obtain ⟨hfoot, hg⟩ := Prod.mk.inj hg
  obtain ⟨hrelation, hweight⟩ := Prod.mk.inj hg
  have hends : (heldSlider.perform 10 (.remove twentieth)).Returned := by
    decide +kernel
  have hsheds : heldSlider.Sheds (.remove twentieth) := by
    refine ⟨0, g, rfl, hi, hrelation, ?_, by rw [hweight]; decide +kernel⟩
    unfold Strength.isRequired
    rw [hweight]
    decide +kernel
  obtain ⟨hcells, -, hstep⟩ :=
    Accounted.objective_cells accounted_heldSlider
  obtain ⟨hsquared, hvacates⟩ := hstep (.remove twentieth) 10 trivial hends
  have hgone := hvacates 0 g rfl hi
  refine ⟨accounted_heldSlider, hcells, hsheds, hends, ?_, ⟨g, hi, hgone⟩,
    ?_⟩
  · intro hsq
    rcases hsquared.1 hsq with hreset | ⟨-, hno⟩
    · cases hreset
    · exact hno hsheds
  · obtain ⟨-, hcell⟩ := hgone ⟨.error, 2⟩ (Or.inr (by rw [hfoot]))
    rw [hcell, hfoot, hrelation, hweight]
    decide +kernel

/-- So it is not always that nothing is in arrears. -/
theorem not_always_squared :
    ¬ ∀ s, Reachable (fun _ c => Command.Built c) s → s.Squared := by
  intro hall
  have hreach : Reachable (fun _ c => Command.Built c)
      (heldSlider.perform 10 (.remove twentieth)).state :=
    .step 10 (.step 10 (.step 10 (.step 10 .empty (.new ..)
      (by decide +kernel)) (.new ..) (by decide +kernel)) (.new ..)
      (by decide +kernel)) trivial (by decide +kernel)
  have hcell := hall _ hreach ⟨.error, 2⟩
  revert hcell
  decide +kernel

end Solver

end LinearConstraints
