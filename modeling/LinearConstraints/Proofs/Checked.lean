/-
Checked operations: each pivot asks for what it relies on.

An operation takes for granted that a row can be solved for the symbol
that it is solved for, that the symbol which leaves the basis does not
occur in its own row, and that a row is added under a new key. The
operations here are those of the solver with these three questions asked
each time, and they end with the error `absentSymbol` where the answer is
no. They come to the same as the operations that do not ask: in no state
that commands lead to is there a pivot that fails a check, whatever the
numbers are and however the commands before it ended.

# What is asked of the numbers

Zero is not below zero, and equal to itself (`LawfulZero`): a symbol is
chosen for its coefficient, and one without a cell has the coefficient
zero. One and minus one do not count as zero when they are added to it
(`VisibleUnit`), or else a constraint would lose its own symbols. Machine
numbers grant this, infinities and NaN included.

Main statement: `Traced.custody`.
-/
import LinearConstraints.Proofs.Custody
import LinearConstraints.Proofs.Lockstep
import LinearConstraints.Proofs.Satisfiability
import LinearConstraints.Solver.Budget

namespace LinearConstraints

variable {α : Type} [Scalar α]

-- ============================================================= numbers

/-- Zero compares with itself as usual. -/
class LawfulZero (α : Type) [Scalar α] : Prop where
  not_lt : ¬ (0 : α) < 0
  beq : ((0 : α) == 0) = true

/-- One and minus one, added to zero, do not count as zero. -/
class VisibleUnit (α : Type) [Scalar α] : Prop where
  one : Scalar.nearZero (0 + 1 : α) = false
  neg_one : Scalar.nearZero (0 + -1 : α) = false

/-- One or minus one, added to zero, or the opposite of that. -/
def Scalar.IsSign (k : α) : Prop :=
  ∃ u : α, (u = 0 + 1 ∨ u = 0 + -1) ∧ (k = u ∨ k = -u)

instance : LawfulZero Rat where
  not_lt := by decide +kernel
  beq := by decide +kernel

instance : LawfulZero TolerantRat where
  not_lt := LawfulZero.not_lt (α := Rat)
  beq := LawfulZero.beq (α := Rat)

instance : VisibleUnit Rat where
  one := by decide +kernel
  neg_one := by decide +kernel

instance : VisibleUnit TolerantRat where
  one := by decide +kernel
  neg_one := by decide +kernel

namespace Row

variable [LawfulZero α] {r : Row α} {x : Symbol}

theorem mem_of_coefficient_neg (h : r.coefficient x < 0) :
    x ∈ r.symbols := by
  by_contra hx
  rw [coefficient_of_not_mem hx] at h
  exact LawfulZero.not_lt h

theorem mem_of_coefficient_pos (h : 0 < r.coefficient x) :
    x ∈ r.symbols := by
  by_contra hx
  rw [coefficient_of_not_mem hx] at h
  exact LawfulZero.not_lt h

theorem mem_of_coefficient_ne (h : (r.coefficient x == 0) = false) :
    x ∈ r.symbols := by
  by_contra hx
  rw [coefficient_of_not_mem hx, LawfulZero.beq] at h
  cases h

end Row

namespace Tableau

-- ================================================== checked tableau work

namespace Checked

/-- Takes out a row, if it mentions the entering symbol and not the
leaving one. -/
def release? (t : Tableau α) (leaving entering : Symbol) :
    Option (Row α × Tableau α) :=
  match t.rows.get? leaving with
  | none => none
  | some r =>
      if r.symbols.contains entering && !r.symbols.contains leaving then
        t.release? leaving entering
      else none

/-- Makes a symbol basic that is not. -/
def install? (t : Tableau α) (s : Symbol) (d : Row α) :
    Option (Tableau α) :=
  if t.rows.contains s then none else some (t.install s d)

def exchange? (t : Tableau α) (leaving entering : Symbol) :
    Option (Tableau α) := do
  let (d, t) ← release? t leaving entering
  install? t entering d

def primalStep (goal : Goal) (t : Tableau α) :
    Step (Tableau α) Failure :=
  match (t.goalRow? goal).bind entering? with
  | none => .stop t (.ok ())
  | some entering =>
      match t.leaving? entering with
      | none => .stop t (.error .unboundedObjective)
      | some leaving =>
          match exchange? t leaving entering with
          | none => .stop t (.error .absentSymbol)
          | some t' => .next t'

def minimise (budget : ℕ) (goal : Goal) (t : Tableau α) :
    Outcome (Tableau α) Failure Unit :=
  iterate (primalStep goal) .budgetSpent budget t

def dualStep (t : Tableau α) : Step (Tableau α) Failure :=
  match t.infeasible with
  | [] => .stop t (.ok ())
  | leaving :: rest =>
      let t := { t with infeasible := rest }
      match t.rows.get? leaving with
      | none => .next t
      | some r =>
          if r.constant < 0 then
            match t.dualEntering? r with
            | none => .stop t (.error .noDualEnteringSymbol)
            | some entering =>
                match exchange? t leaving entering with
                | none => .stop t (.error .absentSymbol)
                | some t' => .next t'
          else .next t

def restore (budget : ℕ) (t : Tableau α) :
    Outcome (Tableau α) Failure Unit :=
  iterate dualStep .budgetSpent budget t

def retire (t : Tableau α) (art : Symbol) :
    Outcome (Tableau α) Failure Bool :=
  match t.rows.get? art with
  | none => .ok (t.purge art) true
  | some r =>
      if r.cells.isEmpty then
        .ok { t with rows := t.rows.erase art } true
      else
        match r.firstPivotable? with
        | none => .ok t false
        | some entering =>
            match exchange? t art entering with
            | none => .error t .absentSymbol
            | some t' => .ok (t'.purge art) true

/-- Searches with a row that is added under a new key. -/
def searchWith (budget : ℕ) (t : Tableau α) (art : Symbol) (r : Row α) :
    Outcome (Tableau α) Failure Bool :=
  if t.rows.contains art then .error t .absentSymbol
  else
    (minimise budget .auxiliary (t.withArtificial art r)).andThen
      fun t _ =>
        let reached := t.auxiliary.any fun a => Scalar.nearZero a.constant
        if reached then retire { t with auxiliary := none } art
        else .ok t false

def adjoin (budget : ℕ) (t : Tableau α) (art : Symbol) (r : Row α) :
    Outcome (Tableau α) Failure Bool :=
  let o := searchWith budget t art r
  match o.result with
  | .ok true => o
  | result => ⟨t, result⟩

def dropMarker (t : Tableau α) (marker : Symbol) :
    Except Failure (Tableau α) :=
  if t.rows.contains marker then
    .ok { t with rows := t.rows.erase marker }
  else
    match t.markerLeaving? marker with
    | none => .error .noMarkerLeavingRow
    | some leaving =>
        match release? t leaving marker with
        | none => .error .absentSymbol
        | some (definition, t') => .ok (t'.substitute marker definition)

end Checked

-- =================================================== no check ever fails

variable {side : ℕ → Bool} {S : Set Symbol} {t t' : Tableau α} {r : Row α}
  {b s : Symbol}

omit [Scalar α] in
theorem contains_eq_false (h : t.rows.get? s = none) :
    t.rows.contains s = false := by
  unfold Table.contains
  rw [h]
  rfl

/-- A row that mentions a symbol, and not its key, can be solved for it. -/
theorem exists_resolve? (hr : b ∉ r.symbols) (hs : s ∈ r.symbols) :
    ∃ d, r.resolve? b s = some d := by
  have hne : b ≠ s := fun heq => hr (heq ▸ hs)
  obtain ⟨k, hk⟩ := Row.mem_symbols_iff.1 hs
  unfold Row.resolve? Row.isolate?
  rw [Row.get?_addCell, if_neg hne, hk]
  exact ⟨_, rfl⟩

namespace Tidy

/-- Taking out a row that mentions the entering symbol. -/
theorem checked_release? (h : t.Tidy side S) (hr : t.rows.get? b = some r)
    (hs : s ∈ r.symbols) :
    Checked.release? t b s = t.release? b s ∧ t.release? b s ≠ none := by
  have hb : b ∉ r.symbols := fun hmem => ((h.row hr b hmem).1.ne hr) rfl
  refine ⟨?_, fun hnone => ?_⟩
  · unfold Checked.release?
    rw [hr]
    simp [hs, hb]
  · obtain ⟨d, hd⟩ := exists_resolve? hb hs
    have := release?_eq_some_iff.2 ⟨r, hr, hd, rfl⟩
    rw [hnone] at this
    cases this

/-- A pivot on a symbol that the row mentions. -/
theorem checked_exchange? (h : t.Tidy side S) (hr : t.rows.get? b = some r)
    (hs : s ∈ r.symbols) :
    Checked.exchange? t b s = t.exchange? b s ∧ t.exchange? b s ≠ none := by
  obtain ⟨hrel, hsome⟩ := h.checked_release? hr hs
  have hfree := (h.row hr s hs).1.2
  unfold Checked.exchange? Tableau.exchange?
  rw [hrel]
  cases hp : t.release? b s with
  | none => exact absurd hp hsome
  | some p =>
      obtain ⟨d, u⟩ := p
      obtain ⟨-, -, -, rfl⟩ := release?_eq_some_iff.1 hp
      refine ⟨?_, fun hnone => by cases hnone⟩
      show Checked.install? (t.without b) s d = some _
      unfold Checked.install?
      rw [contains_eq_false, if_neg Bool.false_ne_true]
      rw [get?_rows_without, hfree]
      split <;> rfl

end Tidy

-- --------------------------------------------------- what is chosen

section Chosen

variable [LawfulZero α]

/-- The row that limits a growing symbol mentions it. -/
theorem row_of_leaving? (h : t.leaving? s = some b) :
    ∃ r, t.rows.get? b = some r ∧ s ∈ r.symbols := by
  obtain ⟨q, hq⟩ := Scalar.mem_of_leastRatio h
  obtain ⟨⟨b', r⟩, hmem, hsome⟩ := List.mem_filterMap.1 hq
  dsimp only at hsome
  split at hsome
  · cases hsome
  · split at hsome
    case isTrue hneg =>
      cases hsome
      exact ⟨r, Table.get?_eq_some_iff.2 hmem,
        Row.mem_of_coefficient_neg hneg⟩
    · cases hsome

omit [LawfulZero α] in
/-- The symbol that raises a row occurs in it. -/
theorem mem_of_dualEntering? (h : t.dualEntering? r = some s) :
    s ∈ r.symbols := by
  obtain ⟨q, hq⟩ := Scalar.mem_of_leastRatio h
  obtain ⟨⟨s', k⟩, hmem, hsome⟩ := List.mem_filterMap.1 hq
  dsimp only at hsome
  split at hsome
  · cases hsome
    exact List.mem_map_of_mem hmem
  · cases hsome

/-- The row that a marker replaces mentions it. -/
theorem row_of_markerLeaving? (h : t.markerLeaving? s = some b) :
    ∃ r, t.rows.get? b = some r ∧ s ∈ r.symbols := by
  have hscan : ∀ (p : Symbol → Row α → Bool) (f : Symbol → Row α → α),
      (∀ b r, p b r = true → s ∈ r.symbols) →
      Scalar.leastRatio (t.rows.entries.filterMap fun e =>
        if p e.1 e.2 then some (e.1, f e.1 e.2) else none) = some b →
      ∃ r, t.rows.get? b = some r ∧ s ∈ r.symbols := by
    intro p f hp hb
    obtain ⟨q, hq⟩ := Scalar.mem_of_leastRatio hb
    obtain ⟨r, hr, htest, -⟩ := Table.mem_filterMap_iff.1 hq
    exact ⟨r, hr, hp b r htest⟩
  unfold markerLeaving? at h
  rcases Option.or_eq_some_iff.1 h with hfall | ⟨-, h⟩
  · refine hscan
      (fun b r => !b.isExternal && decide (r.coefficient s < 0))
      (fun _ r => -r.constant / r.coefficient s) (fun b r htest => ?_) hfall
    obtain ⟨-, hneg⟩ := Bool.and_eq_true_iff.1 htest
    exact Row.mem_of_coefficient_neg (of_decide_eq_true hneg)
  · rcases Option.or_eq_some_iff.1 h with hrise | ⟨-, hlast⟩
    · refine hscan
        (fun b r => !b.isExternal && decide (0 < r.coefficient s))
        (fun _ r => r.constant / r.coefficient s) (fun b r htest => ?_) hrise
      obtain ⟨-, hpos⟩ := Bool.and_eq_true_iff.1 htest
      exact Row.mem_of_coefficient_pos (of_decide_eq_true hpos)
    · obtain ⟨r, hr, htest⟩ := Table.mem_keys_filter_iff.1
        (List.mem_of_getLast? hlast)
      obtain ⟨-, hne⟩ := Bool.and_eq_true_iff.1 htest
      exact ⟨r, hr, Row.mem_of_coefficient_ne (Bool.not_eq_true' _ ▸ hne)⟩

end Chosen

-- ------------------------------------------------------------- loops

namespace Tidy

variable [LawfulZero α] {budget : ℕ}

theorem checked_primalStep (h : t.Tidy side S) (goal : Goal) :
    Checked.primalStep goal t = Tableau.primalStep goal t
      ∧ ∀ t', Tableau.primalStep goal t
          ≠ .stop t' (.error .absentSymbol) := by
  unfold Checked.primalStep Tableau.primalStep
  cases (t.goalRow? goal).bind entering? with
  | none => exact ⟨rfl, fun _ hstop => by cases hstop⟩
  | some s =>
      dsimp only
      cases hb : t.leaving? s with
      | none => exact ⟨rfl, fun _ hstop => by cases hstop⟩
      | some b =>
          obtain ⟨r, hr, hmem⟩ := row_of_leaving? hb
          obtain ⟨heq, hsome⟩ := h.checked_exchange? hr hmem
          dsimp only
          rw [heq]
          refine ⟨rfl, fun t' hstop => ?_⟩
          split at hstop
          case h_1 hnone => exact hsome hnone
          · cases hstop

theorem checked_minimise (h : t.Tidy side S) (budget : ℕ) (goal : Goal) :
    Checked.minimise budget goal t = t.minimise budget goal
      ∧ (t.minimise budget goal).result ≠ .error .absentSymbol := by
  have hnext : ∀ u u' : Tableau α, u.Tidy side S →
      Tableau.primalStep goal u = .next u' → u'.Tidy side S :=
    fun u u' hu hstep => (primalStep_steady ⟨hu, rfl⟩ hstep).1
  exact ⟨iterate_congr hnext (fun u hu => (hu.checked_primalStep goal).1)
      budget t h,
    iterate_ne_error hnext (fun u u' hu => (hu.checked_primalStep goal).2 u')
      (by decide) h budget⟩

omit [LawfulZero α] in
theorem checked_dualStep (h : t.Tidy side S) :
    Checked.dualStep t = Tableau.dualStep t
      ∧ ∀ t', Tableau.dualStep t ≠ .stop t' (.error .absentSymbol) := by
  unfold Checked.dualStep Tableau.dualStep
  cases t.infeasible with
  | nil => exact ⟨rfl, fun _ hstop => by cases hstop⟩
  | cons b rest =>
      have hrest := h.withStack rest
      dsimp only
      cases hr : t.rows.get? b with
      | none => exact ⟨rfl, fun _ hstop => by cases hstop⟩
      | some r =>
          dsimp only
          by_cases hneg : r.constant < 0
          · rw [if_pos hneg, if_pos hneg]
            cases hs : Tableau.dualEntering? { t with infeasible := rest } r
              with
            | none => exact ⟨rfl, fun _ hstop => by cases hstop⟩
            | some s =>
                obtain ⟨heq, hsome⟩ := hrest.checked_exchange? hr
                  (mem_of_dualEntering? hs)
                dsimp only
                rw [heq]
                refine ⟨rfl, fun t' hstop => ?_⟩
                split at hstop
                case h_1 hnone => exact hsome hnone
                · cases hstop
          · rw [if_neg hneg, if_neg hneg]
            exact ⟨rfl, fun _ hstop => by cases hstop⟩

omit [LawfulZero α] in
theorem checked_restore (h : t.Tidy side S) (budget : ℕ) :
    Checked.restore budget t = t.restore budget
      ∧ (t.restore budget).result ≠ .error .absentSymbol := by
  have hnext : ∀ u u' : Tableau α, u.Tidy side S →
      Tableau.dualStep u = .next u' → u'.Tidy side S :=
    fun u u' hu hstep => (dualStep_steady ⟨hu, rfl⟩ hstep).1
  exact ⟨iterate_congr hnext (fun u hu => hu.checked_dualStep.1) budget t h,
    iterate_ne_error hnext (fun u u' hu => hu.checked_dualStep.2 u')
      (by decide) h budget⟩

omit [LawfulZero α] in
theorem checked_retire (h : t.Tidy side S) (art : Symbol) :
    Checked.retire t art = t.retire art
      ∧ (t.retire art).result ≠ .error .absentSymbol := by
  unfold Checked.retire Tableau.retire
  cases hr : t.rows.get? art with
  | none => exact ⟨rfl, fun hres => by cases hres⟩
  | some r =>
      dsimp only
      by_cases hcells : r.cells.isEmpty = true
      · rw [if_pos hcells, if_pos hcells]
        exact ⟨rfl, fun hres => by cases hres⟩
      · rw [if_neg hcells, if_neg hcells]
        cases hfirst : r.firstPivotable? with
        | none => exact ⟨rfl, fun hres => by cases hres⟩
        | some s =>
            obtain ⟨heq, hsome⟩ := h.checked_exchange? hr
              (List.mem_of_find?_eq_some hfirst)
            dsimp only
            rw [heq]
            refine ⟨rfl, fun hres => ?_⟩
            split at hres
            case h_1 hnone => exact hsome hnone
            · cases hres

/-- A search begins with a row under a new key. -/
theorem checked_searchWith {art : Symbol} (h : t.Tidy side S)
    (hart : art ∉ S)
    (hr : r.Within fun x => t.NonBasic S x ∧ side x.id = side art.id)
    (budget : ℕ) :
    Checked.searchWith budget t art r = t.searchWith budget art r
      ∧ (t.searchWith budget art r).result ≠ .error .absentSymbol := by
  have hnew := h.get?_of_not_mem hart
  have hstart := h.withArtificial hart hr
  have hmin := (hstart.minimise budget .auxiliary).1
  obtain ⟨heq, hne⟩ := hstart.checked_minimise budget .auxiliary
  unfold Checked.searchWith Tableau.searchWith
  rw [contains_eq_false hnew, if_neg Bool.false_ne_true, heq]
  generalize (t.withArtificial art r).minimise budget .auxiliary = o
    at hmin hne ⊢
  obtain ⟨u, res⟩ := o
  cases res with
  | error e =>
      exact ⟨rfl, fun hres => hne (congrArg _ (Except.error.inj hres))⟩
  | ok _ =>
      obtain ⟨hretire, hnever⟩ := hmin.dropAuxiliary.checked_retire art
      rw [Outcome.andThen_of_ok rfl, Outcome.andThen_of_ok rfl]
      dsimp only
      rw [hretire]
      refine ⟨rfl, fun hres => ?_⟩
      split at hres
      · exact hnever hres
      · cases hres

theorem checked_adjoin {art : Symbol} (h : t.Tidy side S) (hart : art ∉ S)
    (hr : r.Within fun x => t.NonBasic S x ∧ side x.id = side art.id)
    (budget : ℕ) :
    Checked.adjoin budget t art r = t.adjoin budget art r
      ∧ (t.adjoin budget art r).result ≠ .error .absentSymbol := by
  obtain ⟨heq, hne⟩ := h.checked_searchWith hart hr budget
  refine ⟨?_, ?_⟩
  · exact congrArg (fun o : Outcome (Tableau α) Failure Bool =>
      match o.result with
      | .ok true => o
      | result => ⟨t, result⟩) heq
  · rw [result_adjoin]
    exact hne

theorem checked_dropMarker (h : t.Tidy side S) (marker : Symbol) :
    Checked.dropMarker t marker = t.dropMarker marker
      ∧ t.dropMarker marker ≠ .error .absentSymbol := by
  unfold Checked.dropMarker Tableau.dropMarker
  by_cases hbasic : t.rows.contains marker = true
  · rw [if_pos hbasic, if_pos hbasic]
    exact ⟨rfl, fun hres => by cases hres⟩
  · rw [if_neg hbasic, if_neg hbasic]
    cases hleaving : t.markerLeaving? marker with
    | none => exact ⟨rfl, fun hres => by cases hres⟩
    | some b =>
        obtain ⟨r, hr, hmem⟩ := row_of_markerLeaving? hleaving
        obtain ⟨heq, hsome⟩ := h.checked_release? hr hmem
        dsimp only
        rw [heq]
        refine ⟨rfl, fun hres => ?_⟩
        split at hres
        case h_1 hnone => exact hsome hnone
        · cases hres

end Tidy

end Tableau

namespace Solver

-- =================================================== checked commands

namespace Checked

def settle (budget : ℕ) (s : Solver α) :
    Outcome (Solver α) (Error α) Unit :=
  s.onTableau (Tableau.Checked.minimise budget .main s.tableau)

/-- Solves an equation for a symbol that becomes basic under a new key. -/
def define (s : Solver α) (r : Row α) (x : Symbol) :
    Outcome (Solver α) (Error α) Unit :=
  match (r.isolate? x).bind (Tableau.Checked.install? s.tableau x) with
  | some t => .ok { s with tableau := t } ()
  | none => .error s (.failure .absentSymbol)

def enter (budget : ℕ) (s : Solver α) (c : Constraint α) (r : Row α)
    (f : Footprint) : Outcome (Solver α) (Error α) Unit :=
  match pivotFor? r f with
  | some x => define s r x
  | none =>
      if r.onlyDummies then
        if Scalar.nearZero r.constant then define s r f.marker
        else .error s (s.unsatisfiable c)
      else
        let (art, s) := s.fresh .slack
        (s.onTableau (Tableau.Checked.adjoin budget s.tableau art r)).andThen
          fun s feasible =>
            if feasible then .ok s () else .error s (s.unsatisfiable c)

def register (budget : ℕ) (s : Solver α) (c : Constraint α) :
    Outcome (Solver α) (Error α) Footprint :=
  if s.contains c then .error s (.duplicateConstraint c)
  else
    let (r, f, s) := s.equation c
    (enter budget s c r f).andThen fun s _ =>
      let s := { s with registry := s.registry.insert c.id ⟨c, f⟩ }
      (settle budget s).andThen fun s _ => .ok s f

def add (budget : ℕ) (s : Solver α) (c : Constraint α) :
    Outcome (Solver α) (Error α) Unit :=
  (register budget s c).andThen fun s _ => .ok s ()

def remove (budget : ℕ) (s : Solver α) (c : Constraint α) :
    Outcome (Solver α) (Error α) Unit :=
  match s.registry.get? c.id with
  | none => .error s (.unknownConstraint c)
  | some g =>
      let s := { s with registry := s.registry.erase c.id }
      let s := s.forgive g
      match Tableau.Checked.dropMarker s.tableau g.footprint.marker with
      | .error f => .error s (.failure f)
      | .ok t => settle budget { s with tableau := t }

def addEdit (budget : ℕ) (s : Solver α) (id : ℕ) (v : Variable)
    (strength : Strength α) : Outcome (Solver α) (Error α) Unit :=
  if s.isEdited v then .error s (.duplicateEdit v)
  else if strength.clip.isRequired then .error s .requiredEdit
  else
    let e := EditConstraint.new id v strength
    (register budget s e.constraint).andThen fun s f =>
      .ok { s with edits := s.edits.insert v ⟨e, f⟩ } ()

def removeEdit (budget : ℕ) (s : Solver α) (v : Variable) :
    Outcome (Solver α) (Error α) Unit :=
  match s.edits.get? v with
  | none => .error s (.unknownEdit v)
  | some e =>
      (remove budget s e.constraint.constraint).andThen
        fun s _ => .ok { s with edits := s.edits.erase v } ()

def suggest (budget : ℕ) (s : Solver α) (v : Variable) (x : α) :
    Outcome (Solver α) (Error α) Unit :=
  match s.edits.get? v with
  | none => .error s (.unknownEdit v)
  | some e =>
      let delta := x - e.constraint.target
      let t := s.tableau.moveTarget e.footprint delta
      let e := { e with constraint := e.constraint.suggest x }
      let s := { s with edits := s.edits.insert v e }
      s.onTableau (Tableau.Checked.restore budget t)

/-- Carries out a command with all checks. -/
def perform (budget : ℕ) (s : Solver α) :
    Command α → Outcome (Solver α) (Error α) Unit
  | .add c => add budget s c
  | .remove c => remove budget s c
  | .addEdit id v strength => addEdit budget s id v strength
  | .removeEdit v => removeEdit budget s v
  | .suggest v x => suggest budget s v x
  | .refresh => .ok s.refresh ()
  | .reset => .ok empty ()

end Checked

-- =================================================== no check ever fails

variable {s : Solver α} {d : Sides} {κ : Bool} {arts : List Symbol} {n : ℕ}
  {r : Row α} {f : Footprint} {c : Constraint α}

section Marker

variable [VisibleUnit α]

/-- A symbol without a cell gets one with the coefficient one or minus
one. -/
private theorem get?_addCell_of_not_mem {x : Symbol} (hx : x ∉ r.symbols)
    {k : α} (hk : k = 1 ∨ k = -1) :
    (r.addCell x k).cells.get? x = some (0 + k) := by
  have hnear : Scalar.nearZero (0 + k) = false := by
    rcases hk with rfl | rfl
    · exact VisibleUnit.one
    · exact VisibleUnit.neg_one
  rw [Row.get?_addCell, if_pos rfl, Row.coefficient_of_not_mem hx, hnear]
  rfl

/-- The equation of a constraint mentions its marker, with one or minus
one as the coefficient. -/
theorem Tidy.get?_marker_equation (h : s.Tidy .whole arts)
    (c : Constraint α) :
    ∃ k, Scalar.IsSign k
      ∧ (s.equation c).1.cells.get? (s.equation c).2.1.marker = some k := by
  have hrow := h.rowOf (κ := true) (e := c.expression) (fun _ _ => rfl)
    fun _ _ => rfl
  have hnew : ∀ {k : Symbol.Kind},
      ⟨k, (s.rowOf c.expression).2.nextId⟩
        ∉ (s.rowOf c.expression).1.symbols :=
    fun hmem => lt_irrefl _ (hrow.row _ hmem).1.1.1
  -- The number after the next is another one.
  have hnext : ∀ {k k' : Symbol.Kind} (m : ℕ),
      (⟨k, m + 1⟩ : Symbol) ≠ ⟨k', m⟩ :=
    fun m heq => Nat.succ_ne_self m (congrArg Symbol.id heq)
  have hclosed : ∀ {k : α}, k = 1 ∨ k = -1 →
      ((s.rowOf c.expression).2.closeInequality (s.rowOf c.expression).1 k
          c.strength).1.cells.get?
        ((s.rowOf c.expression).2.closeInequality
          (s.rowOf c.expression).1 k c.strength).2.1.marker
        = some (0 + k) := by
    intro k hk
    have hslack := get?_addCell_of_not_mem (hnew (k := .slack)) hk
    unfold Solver.closeInequality
    by_cases hreq : c.strength.isRequired = true
    · simp only [if_pos hreq]
      exact hslack
    · simp only [if_neg hreq]
      exact (Row.get?_addCell ..).trans ((if_neg (hnext _)).trans hslack)
  have hequal : ∃ k : α, (k = 1 ∨ k = -1)
      ∧ ((s.rowOf c.expression).2.closeEquality
            (s.rowOf c.expression).1 c.strength).1.cells.get?
          ((s.rowOf c.expression).2.closeEquality
            (s.rowOf c.expression).1 c.strength).2.1.marker
          = some (0 + k) := by
    unfold Solver.closeEquality
    by_cases hreq : c.strength.isRequired = true
    · simp only [if_pos hreq]
      exact ⟨1, Or.inl rfl, get?_addCell_of_not_mem hnew (Or.inl rfl)⟩
    · simp only [if_neg hreq]
      exact ⟨-1, Or.inr rfl, (Row.get?_addCell ..).trans
        ((if_neg (hnext _)).trans
          (get?_addCell_of_not_mem hnew (Or.inr rfl)))⟩
  have hturned : ∀ {r : Row α} {x : Symbol} {k : α}, (k = 1 ∨ k = -1) →
      r.cells.get? x = some (0 + k) →
      ∃ u, Scalar.IsSign u
        ∧ (if r.constant < 0 then r.negated else r).cells.get? x
          = some u := by
    intro r x k hk hx
    have hunit : (0 : α) + k = 0 + 1 ∨ (0 : α) + k = 0 + -1 :=
      hk.imp (congrArg _) (congrArg _)
    split
    · exact ⟨-(0 + k), ⟨0 + k, hunit, Or.inr rfl⟩,
        by rw [Row.get?_negated, hx]; rfl⟩
    · exact ⟨0 + k, ⟨0 + k, hunit, Or.inl rfl⟩, hx⟩
  unfold Solver.equation
  cases c.relation with
  | lessOrEqual => exact hturned (Or.inl rfl) (hclosed (Or.inl rfl))
  | greaterOrEqual => exact hturned (Or.inr rfl) (hclosed (Or.inr rfl))
  | equal =>
      obtain ⟨k, hk, hcell⟩ := hequal
      exact hturned hk hcell

theorem Tidy.marker_mem_equation (h : s.Tidy .whole arts)
    (c : Constraint α) :
    (s.equation c).2.1.marker ∈ (s.equation c).1.symbols :=
  let ⟨k, _, hk⟩ := h.get?_marker_equation c
  Row.mem_symbols_iff.2 ⟨k, hk⟩

end Marker

-- ---------------------------------------------------------- adding

omit [Scalar α] in
/-- Work on the tableau that is the same and never fails a check. -/
private theorem checked_onTableau {ρ : Type}
    {o o' : Outcome (Tableau α) Tableau.Failure ρ}
    (h : o' = o ∧ o.result ≠ .error .absentSymbol) :
    s.onTableau o' = s.onTableau o
      ∧ (s.onTableau o).result ≠ .error (.failure .absentSymbol) := by
  obtain ⟨rfl, hne⟩ := h
  exact ⟨rfl, fun hres => hne (failure_of_onTableau_iff.1 hres)⟩

omit [Scalar α] in
/-- Going on in the same way without failing a check. -/
private theorem checked_andThen {ρ τ : Type}
    {o o' : Outcome (Solver α) (Error α) ρ}
    {g g' : Solver α → ρ → Outcome (Solver α) (Error α) τ}
    (h : o' = o ∧ o.result ≠ .error (.failure .absentSymbol))
    (hg : ∀ x, o.result = .ok x → g' o.state x = g o.state x
      ∧ (g o.state x).result ≠ .error (.failure .absentSymbol)) :
    o'.andThen g' = o.andThen g
      ∧ (o.andThen g).result ≠ .error (.failure .absentSymbol) := by
  obtain ⟨rfl, hne⟩ := h
  refine ⟨Outcome.andThen_congr fun x hx => (hg x hx).1, fun hres => ?_⟩
  rcases Outcome.error_of_andThen hres with ⟨he, -⟩ | ⟨x, hx, heq⟩
  · exact hne he
  · rw [heq] at hres
    exact (hg x hx).2 hres

omit [Scalar α] in
/-- What ends with an answer fails no check. -/
private theorem ok_ne_absent {ρ : Type} (s : Solver α) (x : ρ) :
    (Outcome.ok s x : Outcome (Solver α) (Error α) ρ).result
      ≠ .error (.failure .absentSymbol) := fun hres => by cases hres

variable [LawfulZero α]

theorem Tidy.checked_settle (h : s.Tidy d arts) (budget : ℕ) :
    Checked.settle budget s = s.settle budget
      ∧ (s.settle budget).result ≠ .error (.failure .absentSymbol) :=
  checked_onTableau (h.tableau.checked_minimise budget .main)

/-- The symbol of a new row that can be made basic occurs in it. -/
theorem mem_of_pivotFor? {x : Symbol} (h : pivotFor? r f = some x) :
    x ∈ r.symbols := by
  unfold pivotFor? at h
  rcases Option.or_eq_some_iff.1 h with hfirst | ⟨-, hown⟩
  · exact List.mem_of_find?_eq_some hfirst
  · have htest := List.find?_some hown
    obtain ⟨-, hneg⟩ := Bool.and_eq_true_iff.1 htest
    exact Row.mem_of_coefficient_neg (of_decide_eq_true hneg)

namespace Posed

omit [LawfulZero α] in
/-- An equation is solved for a symbol that it mentions. -/
theorem checked_define (h : Posed d κ arts n r f s) {x : Symbol}
    (hx : x ∈ r.symbols) :
    Checked.define s r x = s.define r x
      ∧ (s.define r x).result ≠ .error (.failure .absentSymbol) := by
  obtain ⟨a, ha⟩ := Row.mem_symbols_iff.1 hx
  have hfree := (h.drafts.row x hx).1.2
  have hinstall : ∀ e, Tableau.Checked.install? s.tableau x e
      = some (s.tableau.install x e) := fun e => by
    unfold Tableau.Checked.install?
    rw [Tableau.contains_eq_false hfree, if_neg Bool.false_ne_true]
  unfold Checked.define Solver.define Row.isolate?
  rw [ha]
  dsimp only
  rw [Option.bind_some, hinstall]
  exact ⟨rfl, ok_ne_absent _ _⟩

/-- Entering an equation that mentions the marker of its constraint. -/
theorem checked_enter (h : Posed d κ arts n r f s)
    (hnew : ∀ i, n ≤ i → d.ofSymbol i = κ) (hmarker : f.marker ∈ r.symbols)
    (c : Constraint α) (budget : ℕ) :
    Checked.enter budget s c r f = s.enter budget c r f
      ∧ (s.enter budget c r f).result
        ≠ .error (.failure .absentSymbol) := by
  unfold Checked.enter Solver.enter
  cases hp : pivotFor? r f with
  | some x => exact h.checked_define (mem_of_pivotFor? hp)
  | none =>
      dsimp only
      by_cases hdummies : r.onlyDummies = true
      · rw [if_pos hdummies, if_pos hdummies]
        by_cases hzero : Scalar.nearZero r.constant = true
        · rw [if_pos hzero, if_pos hzero]
          exact h.checked_define hmarker
        · rw [if_neg hzero, if_neg hzero]
          exact ⟨rfl, fun hres => by cases hres⟩
      · rw [if_neg hdummies, if_neg hdummies]
        refine checked_andThen (checked_onTableau ?_) fun feasible _ => ?_
        · have hside : d.ofSymbol (s.fresh .slack).1.id = κ :=
            hnew _ h.drafts.later
          have hart : (s.fresh .slack).1 ∉ s.given arts :=
            fun hmem => lt_irrefl _ hmem.1
          exact h.drafts.tidy.tableau.checked_adjoin hart
            (h.drafts.row.mono fun x hx => ⟨hx.1, hx.2.trans hside.symm⟩)
            budget
        · cases feasible with
          | true => exact ⟨rfl, fun hres => by cases hres⟩
          | false => exact ⟨rfl, fun hres => by cases hres⟩

end Posed

namespace Tidy

variable [VisibleUnit α]

theorem checked_register (h : s.Tidy .whole arts) (c : Constraint α)
    (budget : ℕ) :
    Checked.register budget s c = s.register budget c
      ∧ (s.register budget c).result
        ≠ .error (.failure .absentSymbol) := by
  have hposed := h.equation (κ := true) (c := c) (fun _ _ => rfl)
    ⟨rfl, fun _ _ => rfl⟩
  have hmarker := h.marker_mem_equation c
  unfold Checked.register Solver.register
  by_cases hcontains : s.contains c = true
  · rw [if_pos hcontains, if_pos hcontains]
    exact ⟨rfl, fun hres => by cases hres⟩
  · rw [if_neg hcontains, if_neg hcontains]
    generalize s.equation c = q at hposed hmarker ⊢
    obtain ⟨r, f, s₁⟩ := q
    dsimp only at hposed hmarker ⊢
    refine checked_andThen
      (hposed.checked_enter (fun _ _ => rfl) hmarker c budget) fun _ _ => ?_
    obtain ⟨hentered, hclaim⟩ :=
      hposed.enter c (fun _ _ => rfl) budget
    have hregistered := hentered.register (c := c) (f := f)
      (fun x hx => ⟨(hclaim.given x hx).1, rfl⟩) hclaim.unowned
      hclaim.unbound
    exact checked_andThen (hregistered.checked_settle budget)
      fun _ _ => ⟨rfl, ok_ne_absent _ _⟩

omit [VisibleUnit α] in
theorem checked_remove (h : s.Tidy d arts) (c : Constraint α)
    (budget : ℕ) :
    Checked.remove budget s c = s.remove budget c
      ∧ (s.remove budget c).result ≠ .error (.failure .absentSymbol) := by
  unfold Checked.remove Solver.remove
  cases hg : s.registry.get? c.id with
  | none => exact ⟨rfl, fun hres => by cases hres⟩
  | some g =>
      have hforgiven := (h.unregister c.id).forgive (g := g)
        fun x hx => (h.owned hg hx).1
      obtain ⟨heq, hne⟩ :=
        hforgiven.tableau.checked_dropMarker g.footprint.marker
      dsimp only
      rw [heq]
      cases ht : (Solver.forgive _ g).tableau.dropMarker g.footprint.marker
        with
      | error e =>
          refine ⟨rfl, fun hres => ?_⟩
          obtain rfl := Error.failure.inj (Except.error.inj hres)
          exact hne ht
      | ok t =>
          obtain ⟨htidy, haux⟩ := hforgiven.tableau.dropMarker ht
          exact (hforgiven.withTableau htidy
            (Tableau.Tidy.auxiliary_eq_none haux
              hforgiven.auxiliary)).checked_settle budget

/-- The checked commands are the commands, and no check ever fails. -/
theorem checked_perform (h : s.Tidy .whole arts) (c : Command α)
    (budget : ℕ) :
    Checked.perform budget s c = s.perform budget c
      ∧ (s.perform budget c).result ≠ .error (.failure .absentSymbol) := by
  cases c with
  | add c =>
      show Checked.add budget s c = s.add budget c ∧ _
      unfold Checked.add Solver.perform Solver.add
      exact checked_andThen (h.checked_register c budget)
        fun _ _ => ⟨rfl, ok_ne_absent _ _⟩
  | remove c => exact h.checked_remove c budget
  | addEdit id v strength =>
      show Checked.addEdit budget s id v strength
          = s.addEdit budget id v strength ∧ _
      unfold Checked.addEdit Solver.perform Solver.addEdit
      dsimp only
      by_cases hedited : s.isEdited v = true
      · rw [if_pos hedited, if_pos hedited]
        exact ⟨rfl, fun hres => by cases hres⟩
      · rw [if_neg hedited, if_neg hedited]
        by_cases hreq : strength.clip.isRequired = true
        · rw [if_pos hreq, if_pos hreq]
          exact ⟨rfl, fun hres => by cases hres⟩
        · rw [if_neg hreq, if_neg hreq]
          exact checked_andThen (h.checked_register _ budget)
            fun _ _ => ⟨rfl, ok_ne_absent _ _⟩
  | removeEdit v =>
      show Checked.removeEdit budget s v = s.removeEdit budget v ∧ _
      unfold Checked.removeEdit Solver.perform Solver.removeEdit
      dsimp only
      cases s.edits.get? v with
      | none => exact ⟨rfl, fun hres => by cases hres⟩
      | some e =>
          exact checked_andThen (h.checked_remove _ budget)
            fun _ _ => ⟨rfl, ok_ne_absent _ _⟩
  | suggest v x =>
      show Checked.suggest budget s v x = s.suggest budget v x ∧ _
      unfold Checked.suggest Solver.perform Solver.suggest
      dsimp only
      cases s.edits.get? v with
      | none => exact ⟨rfl, fun hres => by cases hres⟩
      | some e =>
          exact checked_onTableau ((h.tableau.moveTarget e.footprint
            (x - e.constraint.target)).1.checked_restore budget)
  | refresh => exact ⟨rfl, fun hres => by cases hres⟩
  | reset => exact ⟨rfl, fun hres => by cases hres⟩

end Tidy

-- ============================================================= results

end Solver

section Statement

omit [Scalar α]

/-- The symbol has a cell in a row or in an objective. -/
inductive Tableau.Occurs (t : Tableau α) (x : Symbol) : Prop where
  | row {b : Symbol} {r : Row α} (found : t.rows.get? b = some r)
      (cell : x ∈ r.symbols) : Occurs t x
  | objective (cell : x ∈ t.objective.symbols) : Occurs t x
  | auxiliary {a : Row α} (found : t.auxiliary = some a)
      (cell : x ∈ a.symbols) : Occurs t x

namespace Solver

/-- The solver holds the symbol somewhere. -/
inductive Uses (s : Solver α) (x : Symbol) : Prop where
  | basic (key : x ∈ s.tableau.rows.keys) : Uses s x
  | occurs (cell : s.tableau.Occurs x) : Uses s x
  | waits (stack : x ∈ s.tableau.infeasible) : Uses s x
  | bound {v : Variable} {b : Binding α}
      (found : s.bindings.get? v = some b) (same : b.symbol = x) : Uses s x
  | registered {i : ℕ} {g : Registration α}
      (found : s.registry.get? i = some g)
      (mentions : g.footprint.Mentions x) : Uses s x
  | edited {v : Variable} {e : Edit α} (found : s.edits.get? v = some e)
      (mentions : e.footprint.Mentions x) : Uses s x

/-- Whom symbols may belong to: a variable, or the registered constraint
with a number. -/
inductive Owner where
  | ofVariable (v : Variable)
  | ofConstraint (i : ℕ)

/-- The symbol belongs to the owner. -/
def Owns (s : Solver α) : Owner → Symbol → Prop
  | .ofVariable v, x => ∃ b, s.bindings.get? v = some b ∧ b.symbol = x
  | .ofConstraint i, x =>
      ∃ g, s.registry.get? i = some g ∧ g.footprint.Mentions x

variable {s : Solver α} {d : Sides} {arts : List Symbol} {x : Symbol}

/-- A symbol on the stack has been given out. -/
private theorem Numbered.lt_of_stack (h : s.Numbered)
    (hx : x ∈ s.tableau.infeasible) : x.id < s.nextId := by
  by_contra hle
  -- Otherwise its number could be exchanged for the next one.
  have hfix := h.tableau (Equiv.swap x.id (x.id + 1)) fun i hi => by
    have hi : i < s.nextId := hi
    exact Equiv.swap_apply_of_ne_of_ne (by omega) (by omega)
  have hstack := congrArg Tableau.infeasible hfix
  rw [Tableau.infeasible_smul] at hstack
  have hself := List.map_eq_map_iff.1
    (hstack.trans (List.map_id s.tableau.infeasible).symm) x hx
  have hid := congrArg Symbol.id hself
  rw [Symbol.id_smul, Equiv.swap_apply_left] at hid
  exact Nat.succ_ne_self _ hid

namespace Tidy

theorem given_of_occurs (h : s.Tidy d arts) (hx : s.tableau.Occurs x) :
    s.tableau.NonBasic (s.given arts) x := by
  cases hx with
  | row found cell => exact (h.tableau.row found x cell).1
  | objective cell => exact h.tableau.objective x cell
  | auxiliary found cell => exact h.tableau.auxiliary found x cell

theorem given_of_basic (h : s.Tidy d arts)
    (hx : x ∈ s.tableau.rows.keys) : x ∈ s.given arts := by
  obtain ⟨r, hr⟩ := Table.mem_keys_iff.1 hx
  exact h.tableau.basic hr

/-- No symbol in use has yet to be given out. -/
theorem lt_of_uses (h : s.Tidy d arts) (hs : s.Numbered)
    (hx : s.Uses x) : x.id < s.nextId := by
  cases hx with
  | basic key => exact (h.given_of_basic key).1
  | occurs cell => exact (h.given_of_occurs cell).1.1
  | waits stack => exact hs.lt_of_stack stack
  | bound found same => exact same ▸ (h.bound found).1.1
  | registered found mentions => exact (h.owned found mentions).1.1
  | edited found mentions => exact ((h.edited found).2 x mentions).1.1

/-- Symbols of different owners have different numbers. -/
theorem owner_eq (h : s.Tidy d arts) {o p : Owner} {y : Symbol}
    (hx : s.Owns o x) (hy : s.Owns p y) (hid : x.id = y.id) : o = p := by
  cases o with
  | ofVariable v =>
      obtain ⟨b, hb, rfl⟩ := hx
      cases p with
      | ofVariable w =>
          obtain ⟨c, hc, rfl⟩ := hy
          exact congrArg Owner.ofVariable (h.injective hb hc hid)
      | ofConstraint i =>
          obtain ⟨g, hg, hmem⟩ := hy
          exact absurd hid (h.apart hb hg hmem)
  | ofConstraint i =>
      obtain ⟨g, hg, hmem⟩ := hx
      cases p with
      | ofVariable w =>
          obtain ⟨c, hc, rfl⟩ := hy
          exact absurd hid.symm (h.apart hc hg hmem)
      | ofConstraint j =>
          obtain ⟨k, hk, hmem'⟩ := hy
          exact congrArg Owner.ofConstraint (h.disjoint hg hk hmem hmem' hid)

end Tidy

end Solver

end Statement

namespace Solver

variable {s : Solver α} {arts : List Symbol}

theorem Traced.numbered (h : Traced s arts) : s.Numbered := by
  induction h with
  | empty => exact numbered_empty
  | step budget c _ ih =>
      obtain ⟨ρ, hs, -⟩ := (ih.alike.perform budget c).state
      exact hs

/-- In every state that commands lead to, whether or not they came to an
end, no basic symbol has a cell, all symbols in use have been given out,
different variables and registered constraints have different symbols, no
search is under way, and of no artificial symbol is a row or a cell left.
And the next command never fails a check: each row is solved for a symbol
that it mentions, each pivot for one that the row mentions in place of one
that it does not, and each row is added under a new key. -/
theorem Traced.custody [LawfulZero α] [VisibleUnit α]
    (h : Traced s arts) :
    (∀ b ∈ s.tableau.rows.keys, ¬ s.tableau.Occurs b)
      ∧ (∀ x, s.Uses x → x.id < s.nextId)
      ∧ (∀ o p x y, s.Owns o x → s.Owns p y → x.id = y.id → o = p)
      ∧ s.tableau.auxiliary = none
      ∧ (∀ a ∈ arts, a ∉ s.tableau.rows.keys ∧ ¬ s.tableau.Occurs a)
      ∧ ∀ budget c, Checked.perform budget s c = s.perform budget c
        ∧ (s.perform budget c).result
          ≠ .error (.failure .absentSymbol) := by
  have htidy := h.tidy
  refine ⟨fun b hb hcell => ?_, fun x => htidy.lt_of_uses h.numbered,
    fun o p x y => htidy.owner_eq, htidy.auxiliary, fun a ha => ⟨?_, ?_⟩,
    fun budget c => htidy.checked_perform c budget⟩
  · have hnone := (htidy.given_of_occurs hcell).2
    have hsome := Table.contains_iff.2 hb
    rw [Tableau.contains_eq_false hnone] at hsome
    cases hsome
  · exact fun hkey => (htidy.given_of_basic hkey).2 a ha rfl
  · exact fun hcell => (htidy.given_of_occurs hcell).1.2 a ha rfl

/-- A run goes on with whatever artificial symbols it makes. -/
theorem Traced.run (h : Traced s arts) (budget : ℕ)
    (cs : List (Command α)) :
    ∃ arts', Traced (s.run budget cs).1 arts' := by
  induction cs generalizing s arts with
  | nil => exact ⟨arts, h⟩
  | cons c cs ih => exact ih (h.step budget c)

/-- The slider refuses to go past its end after a search. Nothing is left
of the artificial symbol that was made for it. -/
theorem pulledSlider_custody :
    ∃ a arts, Traced (pulledSlider.perform 10 (.add pastEnd)).state
        (a :: arts)
      ∧ a ∉ (pulledSlider.perform 10 (.add pastEnd)).state.tableau.rows.keys
      ∧ ¬ (pulledSlider.perform 10 (.add pastEnd)).state.tableau.Occurs a
      ∧ ∀ c, Checked.perform 10
            (pulledSlider.perform 10 (.add pastEnd)).state c
          = (pulledSlider.perform 10 (.add pastEnd)).state.perform 10 c := by
  obtain ⟨arts, hrun⟩ := Traced.empty.run 10 sliderRun
  have hstep := Traced.step 10 (.add pastEnd) hrun
  have hmade : (pulledSlider.artificial? pastEnd).isSome = true := by
    decide +kernel
  obtain ⟨a, ha⟩ := Option.isSome_iff_exists.1 hmade
  have harts : pulledSlider.retired arts (.add pastEnd) = a :: arts := by
    show (pulledSlider.artificial? pastEnd).toList ++ arts = _
    rw [ha]
    rfl
  rw [show (Solver.empty.run 10 sliderRun).1 = pulledSlider from rfl,
    harts] at hstep
  obtain ⟨-, -, -, -, hretired, hchecked⟩ := Traced.custody hstep
  obtain ⟨hkey, hcell⟩ := hretired a (List.mem_cons_self ..)
  exact ⟨a, arts, hstep, hkey, hcell, fun c => (hchecked 10 c).1⟩

end Solver

end LinearConstraints
