/-
Apart: commands about one side of two solvers.

A command about one side looks at what is on that side, and leaves the
other side as it finds it, provided that nothing is to be done there. So
two solvers that are the same on one side stay the same there when both
carry out the command, and answer alike: only the constraints that a
refusal names need not be the same, since it names all that are
registered. The two must have given out as many numbers, so that new
symbols come out the same.

Main statements: `Abreast.perform`, one command; `Abreast.start`, by which
solvers that are the same on one side may be worked on there.
-/
import LinearConstraints.Proofs.Abreast

namespace LinearConstraints

variable {α : Type}

/-- The error with the constraints that it conflicts with restricted to
some numbers. -/
def Solver.Error.within (p : ℕ → Bool) : Solver.Error α → Solver.Error α
  | .unsatisfiable c conflicting =>
      .unsatisfiable c (conflicting.filter fun c => p c.id)
  | e => e

/-- The variables of a side, as a test. -/
def Sides.hasVariable (d : Sides) (κ : Bool) (v : Variable) : Bool :=
  d.ofVariable v == κ

/-- The constraints of a side, as a test on their numbers. -/
def Sides.hasConstraint (d : Sides) (κ : Bool) (i : ℕ) : Bool :=
  d.ofConstraint i == κ

section Sides

variable {d : Sides} {κ : Bool} {v : Variable} {i : ℕ}

theorem Sides.hasVariable_eq_true (h : d.ofVariable v = κ) :
    d.hasVariable κ v = true := beq_iff_eq.2 h

theorem Sides.hasVariable_eq_false (h : d.ofVariable v = κ) :
    d.hasVariable (!κ) v = false := by
  unfold Sides.hasVariable
  rw [h]
  cases κ <;> rfl

theorem Sides.hasConstraint_eq_true (h : d.ofConstraint i = κ) :
    d.hasConstraint κ i = true := beq_iff_eq.2 h

theorem Sides.hasConstraint_eq_false (h : d.ofConstraint i = κ) :
    d.hasConstraint (!κ) i = false := by
  unfold Sides.hasConstraint
  rw [h]
  cases κ <;> rfl

end Sides

namespace Solver

variable {d : Sides} {κ : Bool} {s₀ u₀ s u s' u' : Solver α}
  {arts arts' : List Symbol}

-- ============================================================= sameness

/-- What two solvers keep apart from the tableau is the same on one
side. -/
structure RecordsOn (d : Sides) (κ : Bool) (s u : Solver α) : Prop where
  registry : s.registry.SameOn (d.hasConstraint κ) u.registry
  bindings : s.bindings.SameOn (d.hasVariable κ) u.bindings
  edits : s.edits.SameOn (d.hasVariable κ) u.edits

/-- Two solvers are the same on one side. -/
structure SameOn (d : Sides) (κ : Bool) (s u : Solver α) : Prop
    extends RecordsOn d κ s u where
  tableau : s.tableau.SameOn (Symbol.on d.ofSymbol κ) u.tableau

namespace RecordsOn

theorem refl (s : Solver α) : RecordsOn d κ s s := ⟨.refl _, .refl _, .refl _⟩

theorem trans (h : RecordsOn d κ s u) (h' : RecordsOn d κ u s') :
    RecordsOn d κ s s' :=
  ⟨h.registry.trans h'.registry, h.bindings.trans h'.bindings,
    h.edits.trans h'.edits⟩

end RecordsOn

/-- Two solvers that are worked on abreast: they have given out as many
numbers and take none back, they are the same on one side, and each keeps
the other side that it had at first. -/
structure Abreast [Scalar α] (d : Sides) (κ : Bool)
    (s₀ u₀ s u : Solver α) : Prop where
  nextId : s.nextId = u.nextId
  later : s₀.nextId ≤ s.nextId
  tableau : Tableau.Abreast d.ofSymbol κ {x | x.id < s.nextId}
    s₀.tableau u₀.tableau s.tableau u.tableau
  same : RecordsOn d κ s u
  left : RecordsOn d (!κ) s₀ s
  right : RecordsOn d (!κ) u₀ u

/-- Two outcomes that agree but for constraints of the other side that an
error names. -/
structure Concur [Scalar α] {ρ : Type} (d : Sides) (κ : Bool)
    (s₀ u₀ : Solver α) (o o' : Outcome (Solver α) (Error α) ρ) :
    Prop where
  result : o.result.mapError (Error.within (d.hasConstraint κ))
    = o'.result.mapError (Error.within (d.hasConstraint κ))
  state : Abreast d κ s₀ u₀ o.state o'.state

variable [Scalar α]

/-- No symbol of the other side lowers the objective as it grows. -/
def IdleOff (d : Sides) (κ : Bool) (s : Solver α) : Prop :=
  s.tableau.objective.Idle (Symbol.on d.ofSymbol !κ)

namespace Concur

variable {ρ τ : Type} {o o' : Outcome (Solver α) (Error α) ρ}

/-- An answer is the same. -/
theorem ok_iff (h : Concur d κ s₀ u₀ o o') {r : ρ} :
    o.result = .ok r ↔ o'.result = .ok r := by
  have hres := h.result
  cases ho : o.result with
  | ok x =>
      cases ho' : o'.result with
      | ok y =>
          rw [ho, ho'] at hres
          obtain rfl := Except.ok.inj hres
          rfl
      | error e =>
          rw [ho, ho'] at hres
          cases hres
  | error e =>
      cases ho' : o'.result with
      | ok y =>
          rw [ho, ho'] at hres
          cases hres
      | error e' => exact ⟨fun hr => (by cases hr), fun hr => by cases hr⟩

theorem andThen (h : Concur d κ s₀ u₀ o o')
    {f f' : Solver α → ρ → Outcome (Solver α) (Error α) τ}
    (hf : ∀ r, o.result = .ok r → o'.result = .ok r →
      Concur d κ s₀ u₀ (f o.state r) (f' o'.state r)) :
    Concur d κ s₀ u₀ (o.andThen f) (o'.andThen f') := by
  cases ho : o.result with
  | ok r =>
      have ho' := h.ok_iff.1 ho
      rw [Outcome.andThen_of_ok ho, Outcome.andThen_of_ok ho']
      exact hf r ho ho'
  | error e =>
      have hres := h.result
      cases ho' : o'.result with
      | ok r =>
          rw [h.ok_iff.2 ho'] at ho
          cases ho
      | error e' =>
          rw [ho, ho'] at hres
          unfold Outcome.andThen
          rw [ho, ho']
          exact ⟨congrArg Except.error (Except.error.inj hres), h.state⟩

end Concur

namespace Abreast

variable {r : Row α} {f : Footprint}

-- =========================================================== new symbols

/-- Both answer the same. -/
theorem ok {ρ : Type} (h : Abreast d κ s₀ u₀ s u) (x : ρ) :
    Concur d κ s₀ u₀ (.ok s x) (.ok u x) := ⟨rfl, h⟩

theorem error {ρ : Type} (h : Abreast d κ s₀ u₀ s u) (e : Error α) :
    Concur (ρ := ρ) d κ s₀ u₀ (.error s e) (.error u e) := ⟨rfl, h⟩

theorem raise (h : Abreast d κ s₀ u₀ s u) {n : ℕ} (hn : s.nextId ≤ n) :
    Abreast d κ s₀ u₀ { s with nextId := n } { u with nextId := n } where
  nextId := rfl
  later := h.later.trans hn
  tableau := h.tableau.mono fun _ hx => lt_of_lt_of_le hx hn
  same := ⟨h.same.registry, h.same.bindings, h.same.edits⟩
  left := ⟨h.left.registry, h.left.bindings, h.left.edits⟩
  right := ⟨h.right.registry, h.right.bindings, h.right.edits⟩

/-- The same new symbol. -/
theorem fresh (h : Abreast d κ s₀ u₀ s u) (k : Symbol.Kind) :
    (s.fresh k).1 = (u.fresh k).1
      ∧ Abreast d κ s₀ u₀ (s.fresh k).2 (u.fresh k).2 := by
  refine ⟨congrArg (Symbol.mk k) h.nextId, ?_⟩
  have hup := h.raise (Nat.le_succ s.nextId)
  unfold Solver.fresh
  dsimp only
  rw [← h.nextId]
  exact hup

/-- Records change alike on the side, and stay on the other. -/
private theorem withRecords (h : Abreast d κ s₀ u₀ s u)
    (hs : s'.nextId = s.nextId ∧ s'.tableau = s.tableau)
    (hu : u'.nextId = u.nextId ∧ u'.tableau = u.tableau)
    (hsame : RecordsOn d κ s' u') (hleft : RecordsOn d (!κ) s s')
    (hright : RecordsOn d (!κ) u u') : Abreast d κ s₀ u₀ s' u' where
  nextId := hs.1.trans (h.nextId.trans hu.1.symm)
  later := h.later.trans_eq hs.1.symm
  tableau := by
    rw [hs.1, hs.2, hu.2]
    exact h.tableau
  same := hsame
  left := h.left.trans hleft
  right := h.right.trans hright

/-- Binding a variable of the side to the same symbol. -/
private theorem bind (h : Abreast d κ s₀ u₀ s u) {v : Variable}
    (hv : d.ofVariable v = κ) (b : Binding α) :
    Abreast d κ s₀ u₀ { s with bindings := s.bindings.insert v b }
      { u with bindings := u.bindings.insert v b } :=
  h.withRecords ⟨rfl, rfl⟩ ⟨rfl, rfl⟩
    { h.same with bindings := h.same.bindings.insert v b }
    { RecordsOn.refl s with
      bindings := .insert_right (Sides.hasVariable_eq_false hv) _ b }
    { RecordsOn.refl u with
      bindings := .insert_right (Sides.hasVariable_eq_false hv) _ b }

/-- The same symbol of a variable. -/
theorem symbolOf (h : Abreast d κ s₀ u₀ s u) {v : Variable}
    (hv : d.ofVariable v = κ) :
    (s.symbolOf v).1 = (u.symbolOf v).1
      ∧ Abreast d κ s₀ u₀ (s.symbolOf v).2 (u.symbolOf v).2 := by
  unfold Solver.symbolOf
  rw [← h.same.bindings.get?_eq (Sides.hasVariable_eq_true hv)]
  cases s.bindings.get? v with
  | some b => exact ⟨rfl, h⟩
  | none =>
      obtain ⟨heq, hfresh⟩ := h.fresh .external
      dsimp only
      rw [← heq]
      exact ⟨rfl, hfresh.bind hv _⟩

end Abreast

-- ============================================================ equations

/-- The same row, drafted in two solvers abreast. -/
structure Paired (d : Sides) (κ : Bool) (s₀ u₀ : Solver α)
    (arts arts' : List Symbol) (n : ℕ) (p q : Row α × Solver α) : Prop
    where
  left : Drafted d κ arts n p
  right : Drafted d κ arts' n q
  row : p.1 = q.1
  abreast : Abreast d κ s₀ u₀ p.2 q.2

/-- The same row and symbols, posed in two solvers abreast. -/
structure PosedPair (d : Sides) (κ : Bool) (s₀ u₀ : Solver α)
    (p q : Row α × Footprint × Solver α) : Prop where
  row : p.1 = q.1
  footprint : p.2.1 = q.2.1
  abreast : Abreast d κ s₀ u₀ p.2.2 q.2.2

namespace Paired

variable {n : ℕ} {p q : Row α × Solver α}

theorem addTerm (h : Paired d κ s₀ u₀ arts arts' n p q)
    (hnew : ∀ i, n ≤ i → d.ofSymbol i = κ) {term : Term α}
    (hv : d.ofVariable term.var = κ) :
    Paired d κ s₀ u₀ arts arts' n (Solver.addTerm p term)
      (Solver.addTerm q term) := by
  refine ⟨h.left.addTerm hnew hv, h.right.addTerm hnew hv, ?_, ?_⟩ <;>
    unfold Solver.addTerm <;> split
  · exact h.row
  · obtain ⟨hsym, hnext⟩ := h.abreast.symbolOf hv
    obtain ⟨-, -, hside⟩ := h.left.symbolOf hnew hv
    show Tableau.addSymbol _ _ _ _ = Tableau.addSymbol _ _ _ _
    unfold Tableau.addSymbol
    rw [← hsym, ← hnext.tableau.get?_eq hside, h.row]
  · exact h.abreast
  · exact (h.abreast.symbolOf hv).2

/-- A new symbol with a coefficient. -/
private theorem freshCell (h : Paired d κ s₀ u₀ arts arts' n p q)
    (hnew : ∀ i, n ≤ i → d.ofSymbol i = κ) (k : Symbol.Kind) (a : α) :
    (p.2.fresh k).1 = (q.2.fresh k).1
      ∧ Paired d κ s₀ u₀ arts arts' n
        (p.1.addCell (p.2.fresh k).1 a, (p.2.fresh k).2)
        (q.1.addCell (q.2.fresh k).1 a, (q.2.fresh k).2) := by
  obtain ⟨hsym, hnext⟩ := h.abreast.fresh k
  exact ⟨hsym, Drafted.freshCell h.left hnew k a,
    Drafted.freshCell h.right hnew k a, by rw [h.row, hsym], hnext⟩

/-- Weighing a new symbol that is not basic. -/
private theorem weigh (h : Paired d κ s₀ u₀ arts arts' n p q)
    {x x' : Symbol} (heq : x = x') (weight : α)
    (hside : d.ofSymbol x.id = κ)
    (hx : p.2.tableau.NonBasic (p.2.given arts) x)
    (hx' : q.2.tableau.NonBasic (q.2.given arts') x') :
    Paired d κ s₀ u₀ arts arts' n (p.1, p.2.penalise x weight)
      (q.1, q.2.penalise x' weight) where
  left := h.left.weigh weight hx
  right := h.right.weigh weight hx'
  row := h.row
  abreast := by
    subst heq
    exact { h.abreast with
      tableau := h.abreast.tableau.addCell hside ⟨hx.1.1, hx.2⟩
        ⟨lt_of_lt_of_eq hx'.1.1 h.abreast.nextId.symm, hx'.2⟩ weight
      same := ⟨h.abreast.same.registry, h.abreast.same.bindings,
        h.abreast.same.edits⟩
      left := ⟨h.abreast.left.registry, h.abreast.left.bindings,
        h.abreast.left.edits⟩
      right := ⟨h.abreast.right.registry, h.abreast.right.bindings,
        h.abreast.right.edits⟩ }

variable {r r' : Row α}

private theorem closeInequality
    (h : Paired d κ s₀ u₀ arts arts' n (r, s) (r', u))
    (hnew : ∀ i, n ≤ i → d.ofSymbol i = κ) (sign : α)
    (strength : Strength α) :
    PosedPair d κ s₀ u₀ (s.closeInequality r sign strength)
      (u.closeInequality r' sign strength) := by
  obtain ⟨hsym, hslack⟩ := h.freshCell hnew .slack sign
  unfold Solver.closeInequality
  by_cases hreq : strength.isRequired = true
  · simp only [if_pos hreq]
    exact ⟨hslack.row, congrArg (Footprint.mk · none) hsym, hslack.abreast⟩
  · simp only [if_neg hreq]
    obtain ⟨hsym', herror⟩ := hslack.freshCell hnew .error (-sign)
    have hweighed := herror.weigh hsym' strength.value
      (hnew _ hslack.left.later)
      (hslack.left.tidy.nonBasic_fresh .error)
      (hslack.right.tidy.nonBasic_fresh .error)
    exact ⟨herror.row,
      congrArg₂ (fun x y => Footprint.mk x (some y)) hsym hsym',
      hweighed.abreast⟩

private theorem closeEquality
    (h : Paired d κ s₀ u₀ arts arts' n (r, s) (r', u))
    (hnew : ∀ i, n ≤ i → d.ofSymbol i = κ) (strength : Strength α) :
    PosedPair d κ s₀ u₀ (s.closeEquality r strength)
      (u.closeEquality r' strength) := by
  unfold Solver.closeEquality
  by_cases hreq : strength.isRequired = true
  · simp only [if_pos hreq]
    obtain ⟨hsym, hdummy⟩ := h.freshCell hnew .dummy 1
    exact ⟨hdummy.row, congrArg (Footprint.mk · none) hsym, hdummy.abreast⟩
  · simp only [if_neg hreq]
    obtain ⟨hsym, habove⟩ := h.freshCell hnew .error (-1)
    obtain ⟨hsym', hbelow⟩ := habove.freshCell hnew .error 1
    have hfirst := (h.left.tidy.nonBasic_fresh .error).mono
      (given_subset (Nat.le_succ (s.fresh .error).2.nextId))
    have hfirst' := (h.right.tidy.nonBasic_fresh .error).mono
      (given_subset (Nat.le_succ (u.fresh .error).2.nextId))
    have hweighed := (hbelow.weigh hsym strength.value
        (hnew _ h.left.later) hfirst hfirst').weigh hsym' strength.value
      (hnew _ habove.left.later) (habove.left.tidy.nonBasic_fresh .error)
      (habove.right.tidy.nonBasic_fresh .error)
    exact ⟨hbelow.row,
      congrArg₂ (fun x y => Footprint.mk x (some y)) hsym hsym',
      hweighed.abreast⟩

end Paired

/-- The row of an expression of the side. -/
private theorem Abreast.rowOf (h : Abreast d κ s₀ u₀ s u)
    (hs : s.Tidy d arts) (hu : u.Tidy d arts') {e : Expression α}
    (hnew : ∀ i, s.nextId ≤ i → d.ofSymbol i = κ)
    (he : ∀ v ∈ e.vars, d.ofVariable v = κ) :
    Paired d κ s₀ u₀ arts arts' s.nextId (s.rowOf e) (u.rowOf e) := by
  have key : ∀ (terms : List (Term α)) (p q : Row α × Solver α),
      (∀ v ∈ terms.map Term.var, d.ofVariable v = κ) →
      Paired d κ s₀ u₀ arts arts' s.nextId p q →
      Paired d κ s₀ u₀ arts arts' s.nextId (terms.foldl Solver.addTerm p)
        (terms.foldl Solver.addTerm q) := by
    intro terms
    induction terms with
    | nil => exact fun _ _ _ h => h
    | cons term terms ih =>
        intro p q hvars h
        obtain ⟨hv, hvars⟩ := List.forall_mem_cons.1 hvars
        exact ih _ _ hvars (h.addTerm hnew hv)
  refine key e.terms _ _ he ⟨⟨hs, .ofConstant _, le_refl _⟩,
    ⟨hu, .ofConstant _, h.nextId.le⟩, rfl, h⟩

/-- Posing a constraint of the side gives the same equation. -/
theorem Abreast.equation (h : Abreast d κ s₀ u₀ s u) (hs : s.Tidy d arts)
    (hu : u.Tidy d arts') {c : Constraint α}
    (hnew : ∀ i, s.nextId ≤ i → d.ofSymbol i = κ) (hc : c.On d κ) :
    PosedPair d κ s₀ u₀ (s.equation c) (u.equation c) := by
  have hrow := h.rowOf hs hu hnew hc.2
  have hturned : ∀ {p q : Row α × Footprint × Solver α},
      PosedPair d κ s₀ u₀ p q →
      PosedPair d κ s₀ u₀
        (if p.1.constant < 0 then p.1.negated else p.1, p.2)
        (if q.1.constant < 0 then q.1.negated else q.1, q.2) :=
    fun h => ⟨by rw [h.row], h.footprint, h.abreast⟩
  unfold Solver.equation
  cases c.relation with
  | lessOrEqual => exact hturned (hrow.closeInequality hnew 1 c.strength)
  | greaterOrEqual =>
      exact hturned (hrow.closeInequality hnew (-1) c.strength)
  | equal => exact hturned (hrow.closeEquality hnew c.strength)

-- ============================================================= adding

omit [Scalar α] in
/-- The same constraints of the side are registered. -/
theorem RecordsOn.constraints_eq (h : RecordsOn d κ s u)
    (hs : ∀ i g, s.registry.get? i = some g → g.constraint.id = i)
    (hu : ∀ i g, u.registry.get? i = some g → g.constraint.id = i) :
    s.constraints.filter (fun c => d.hasConstraint κ c.id)
      = u.constraints.filter fun c => d.hasConstraint κ c.id := by
  have hlist : ∀ {s : Solver α},
      (∀ i g, s.registry.get? i = some g → g.constraint.id = i) →
      s.constraints.filter (fun c => d.hasConstraint κ c.id)
        = (s.registry.entries.filter fun e => d.hasConstraint κ e.1).map
            fun e => e.2.constraint := by
    intro s hs
    unfold constraints Table.values
    rw [List.map_map, List.filter_map]
    refine congrArg (List.map _) (List.filter_congr fun e he => ?_)
    show d.hasConstraint κ e.2.constraint.id = _
    rw [hs _ _ (Table.get?_eq_some_iff.2 he)]
  rw [hlist hs, hlist hu, h.registry.entries_eq]

namespace Abreast

variable {r : Row α} {f : Footprint} {n : ℕ}

/-- A refusal names the same constraints of the side. -/
private theorem refuse {ρ : Type} (h : Abreast d κ s₀ u₀ s u)
    (hs : ∀ i g, s.registry.get? i = some g → g.constraint.id = i)
    (hu : ∀ i g, u.registry.get? i = some g → g.constraint.id = i)
    (c : Constraint α) :
    Concur (ρ := ρ) d κ s₀ u₀ (.error s (s.unsatisfiable c))
      (.error u (u.unsatisfiable c)) := by
  refine ⟨?_, h⟩
  exact congrArg (fun l => Except.error (Error.unsatisfiable c l))
    (h.same.constraints_eq hs hu)

omit [Scalar α] in
private theorem records_withTableau {t v : Tableau α}
    (h : RecordsOn d κ s u) :
    RecordsOn d κ { s with tableau := t } { u with tableau := v } :=
  ⟨h.registry, h.bindings, h.edits⟩

/-- The tableaux are worked on abreast. -/
private theorem withTableau (h : Abreast d κ s₀ u₀ s u) {t v : Tableau α}
    (ht : Tableau.Abreast d.ofSymbol κ {x | x.id < s.nextId} s₀.tableau
      u₀.tableau t v) :
    Abreast d κ s₀ u₀ { s with tableau := t } { u with tableau := v } where
  nextId := h.nextId
  later := h.later
  tableau := ht
  same := records_withTableau h.same
  left := records_withTableau h.left
  right := records_withTableau h.right

/-- Work on the tableaux gives the same answers. -/
private theorem onTableau {ρ : Type} (h : Abreast d κ s₀ u₀ s u)
    {o o' : Outcome (Tableau α) Tableau.Failure ρ}
    (ho : o.Match (Tableau.Abreast d.ofSymbol κ {x | x.id < s.nextId}
      s₀.tableau u₀.tableau) o') :
    Concur d κ s₀ u₀ (s.onTableau o) (u.onTableau o') := by
  refine ⟨?_, h.withTableau ho.state⟩
  unfold Solver.onTableau
  rw [ho.result]

variable [LawfulZero α]

theorem settle (h : Abreast d κ s₀ u₀ s u) (hs₀ : IdleOff d κ s₀)
    (hu₀ : IdleOff d κ u₀) (budget : ℕ) :
    Concur d κ s₀ u₀ (s.settle budget) (u.settle budget) :=
  h.onTableau (h.tableau.minimise budget .main fun _ => ⟨hs₀, hu₀⟩)

omit [Scalar α] [LawfulZero α] in
/-- The row of a posed constraint, in symbols that have been given out. -/
private theorem row_within (h : Posed d κ arts n r f s) :
    r.Within fun x => s.tableau.NonBasic {x | x.id < s.nextId} x
      ∧ d.ofSymbol x.id = κ :=
  h.drafts.row.mono fun _ hx => ⟨⟨hx.1.1.1, hx.1.2⟩, hx.2⟩

omit [LawfulZero α] in
/-- Solving the same equation for the same symbol. -/
private theorem define (h : Abreast d κ s₀ u₀ s u)
    (hs : Posed d κ arts n r f s) (hu : Posed d κ arts' n r f u)
    (x : Symbol) :
    Concur d κ s₀ u₀ (s.define r x) (u.define r x) := by
  unfold Solver.define
  cases he : r.isolate? x with
  | none => exact h.error _
  | some e =>
      obtain ⟨hx, hdef⟩ := Row.isolate?_within he
      have hmade : ∀ {t : Tableau α} {m : ℕ},
          (r.Within fun x => t.NonBasic {x | x.id < m} x
            ∧ d.ofSymbol x.id = κ) →
          t.NonBasic {x | x.id < m} x ∧ e.Within fun y =>
            t.NonBasic ({x | x.id < m} \ {x}) y
              ∧ d.ofSymbol y.id = d.ofSymbol x.id := by
        intro t m hr
        refine ⟨(hr x hx).1, hdef.mono fun y hy => ?_⟩
        obtain ⟨hfree, hside⟩ := hr y hy.1
        exact ⟨⟨⟨hfree.1, hy.2⟩, hfree.2⟩, hside.trans (hr x hx).2.symm⟩
      obtain ⟨hfree, hwithin⟩ := hmade (row_within hs)
      have hru := row_within hu
      rw [← h.nextId] at hru
      obtain ⟨hfree', hwithin'⟩ := hmade hru
      exact (h.withTableau (h.tableau.install (row_within hs x hx).2 hfree
        hfree' hwithin hwithin')).ok ()

/-- Entering the same equation. -/
private theorem enter (h : Abreast d κ s₀ u₀ s u)
    (hs : Posed d κ arts n r f s) (hu : Posed d κ arts' n r f u)
    (hnew : ∀ i, n ≤ i → d.ofSymbol i = κ) (c : Constraint α)
    (budget : ℕ) :
    Concur d κ s₀ u₀ (s.enter budget c r f) (u.enter budget c r f) := by
  have hnum := hs.drafts.tidy.numbered
  have hnum' := hu.drafts.tidy.numbered
  unfold Solver.enter
  cases pivotFor? r f with
  | some x => exact h.define hs hu x
  | none =>
      dsimp only
      split
      · split
        · exact h.define hs hu f.marker
        · exact h.refuse hnum hnum' c
      · obtain ⟨hart, hnext⟩ := h.fresh .slack
        have hside : d.ofSymbol (s.fresh .slack).1.id = κ :=
          hnew _ hs.drafts.later
        have hru := row_within hu
        rw [← h.nextId] at hru
        have hart' : (s.fresh .slack).1 ∉ {x : Symbol | x.id < s.nextId} :=
          fun hmem => lt_irrefl s.nextId hmem
        have hadjoin := h.tableau.adjoin hart' hside
          ((row_within hs).mono fun x hx => ⟨hx.1, hx.2.trans hside.symm⟩)
          (hru.mono fun x hx => ⟨hx.1, hx.2.trans hside.symm⟩) budget
        rw [← hart]
        refine (hnext.onTableau ⟨hadjoin.result,
          hadjoin.state.mono fun x hx => Nat.lt_succ_of_lt hx⟩).andThen
          fun feasible hok hok' => ?_
        have hlast := hnext.withTableau (hadjoin.state.mono fun x hx =>
          Nat.lt_succ_of_lt hx)
        cases feasible with
        | true => exact hlast.ok ()
        | false => exact hlast.refuse hnum hnum' c

omit [LawfulZero α] in
private theorem setRegistration (h : Abreast d κ s₀ u₀ s u) {i : ℕ}
    (hi : d.ofConstraint i = κ) (g : Registration α) :
    Abreast d κ s₀ u₀ { s with registry := s.registry.insert i g }
      { u with registry := u.registry.insert i g } :=
  h.withRecords ⟨rfl, rfl⟩ ⟨rfl, rfl⟩
    { h.same with registry := h.same.registry.insert i g }
    { RecordsOn.refl s with
      registry := .insert_right (Sides.hasConstraint_eq_false hi) _ g }
    { RecordsOn.refl u with
      registry := .insert_right (Sides.hasConstraint_eq_false hi) _ g }

/-- Registering the same constraint. -/
theorem register (h : Abreast d κ s₀ u₀ s u) (hs : s.Tidy d arts)
    (hu : u.Tidy d arts') (hs₀ : IdleOff d κ s₀) (hu₀ : IdleOff d κ u₀)
    {c : Constraint α} (hnew : ∀ i, s.nextId ≤ i → d.ofSymbol i = κ)
    (hc : c.On d κ) (budget : ℕ) :
    Concur d κ s₀ u₀ (s.register budget c) (u.register budget c) := by
  have hcontains : s.contains c = u.contains c :=
    h.same.registry.contains_eq (Sides.hasConstraint_eq_true hc.1)
  unfold Solver.register
  rw [← hcontains]
  split
  · exact h.error _
  · have hposed := h.equation hs hu hnew hc
    have hps := hs.equation hnew hc
    have hpu := hu.equation (h.nextId ▸ hnew) hc
    generalize s.equation c = p at hposed hps ⊢
    generalize u.equation c = q at hposed hpu ⊢
    obtain ⟨r, f, s₁⟩ := p
    obtain ⟨r', f', u₁⟩ := q
    obtain ⟨hrow, hfoot, hab⟩ := hposed
    dsimp only at hrow hfoot hab hps hpu ⊢
    subst hrow
    subst hfoot
    rw [← h.nextId] at hpu
    refine (hab.enter hps hpu hnew c budget).andThen fun _ hok hok' => ?_
    have hentered := (hab.enter hps hpu hnew c budget).state
    exact ((hentered.setRegistration hc.1 ⟨c, f⟩).settle hs₀ hu₀
      budget).andThen fun _ _ _ => (((hentered.setRegistration hc.1
        ⟨c, f⟩).settle hs₀ hu₀ budget).state).ok f

theorem add (h : Abreast d κ s₀ u₀ s u) (hs : s.Tidy d arts)
    (hu : u.Tidy d arts') (hs₀ : IdleOff d κ s₀) (hu₀ : IdleOff d κ u₀)
    {c : Constraint α} (hnew : ∀ i, s.nextId ≤ i → d.ofSymbol i = κ)
    (hc : c.On d κ) (budget : ℕ) :
    Concur d κ s₀ u₀ (s.add budget c) (u.add budget c) :=
  have hreg := h.register hs hu hs₀ hu₀ hnew hc budget
  hreg.andThen fun _ _ _ => hreg.state.ok ()

-- =========================================================== removing

omit [LawfulZero α] in
private theorem eraseRegistration (h : Abreast d κ s₀ u₀ s u) {i : ℕ}
    (hi : d.ofConstraint i = κ) :
    Abreast d κ s₀ u₀ { s with registry := s.registry.erase i }
      { u with registry := u.registry.erase i } :=
  h.withRecords ⟨rfl, rfl⟩ ⟨rfl, rfl⟩
    { h.same with registry := h.same.registry.erase i }
    { RecordsOn.refl s with
      registry := .erase_right (Sides.hasConstraint_eq_false hi) _ }
    { RecordsOn.refl u with
      registry := .erase_right (Sides.hasConstraint_eq_false hi) _ }

omit [LawfulZero α] in
/-- Forgiving the same constraint. -/
private theorem forgive (h : Abreast d κ s₀ u₀ s u) {g : Registration α}
    (hg : ∀ x, g.footprint.Mentions x →
      x.id < s.nextId ∧ d.ofSymbol x.id = κ) :
    Abreast d κ s₀ u₀ (s.forgive g) (u.forgive g) := by
  unfold Solver.forgive
  cases he : g.footprint.error? with
  | none => exact h
  | some x =>
      obtain ⟨hlt, hside⟩ := hg x (Footprint.mentions_of_error? he).1
      exact h.withTableau (h.tableau.addSymbol hside hlt _)

/-- Removing the same constraint. -/
theorem remove (h : Abreast d κ s₀ u₀ s u) (hs : s.Tidy d arts)
    (hs₀ : IdleOff d κ s₀) (hu₀ : IdleOff d κ u₀) {c : Constraint α}
    (hc : d.ofConstraint c.id = κ) (budget : ℕ) :
    Concur d κ s₀ u₀ (s.remove budget c) (u.remove budget c) := by
  unfold Solver.remove
  rw [← h.same.registry.get?_eq (Sides.hasConstraint_eq_true hc)]
  cases hg : s.registry.get? c.id with
  | none => exact h.error _
  | some g =>
      have hfoot : ∀ x, g.footprint.Mentions x →
          x.id < s.nextId ∧ d.ofSymbol x.id = κ := fun x hx =>
        ⟨(hs.owned hg hx).1.1, (hs.owned hg hx).2.trans hc⟩
      have hforgiven := (h.eraseRegistration hc).forgive hfoot
      dsimp only
      rcases hforgiven.tableau.dropMarker (hfoot _ (Or.inl rfl)).2 with
        ⟨e, ht, hu⟩ | ⟨t, v, ht, hu, hdropped⟩
      · rw [ht, hu]
        exact hforgiven.error _
      · rw [ht, hu]
        exact (hforgiven.withTableau hdropped).settle hs₀ hu₀ budget

-- =============================================================== edits

omit [LawfulZero α] in
private theorem setEdit (h : Abreast d κ s₀ u₀ s u) {v : Variable}
    (hv : d.ofVariable v = κ) (e : Edit α) :
    Abreast d κ s₀ u₀ { s with edits := s.edits.insert v e }
      { u with edits := u.edits.insert v e } :=
  h.withRecords ⟨rfl, rfl⟩ ⟨rfl, rfl⟩
    { h.same with edits := h.same.edits.insert v e }
    { RecordsOn.refl s with
      edits := .insert_right (Sides.hasVariable_eq_false hv) _ e }
    { RecordsOn.refl u with
      edits := .insert_right (Sides.hasVariable_eq_false hv) _ e }

omit [LawfulZero α] in
private theorem eraseEdit (h : Abreast d κ s₀ u₀ s u) {v : Variable}
    (hv : d.ofVariable v = κ) :
    Abreast d κ s₀ u₀ { s with edits := s.edits.erase v }
      { u with edits := u.edits.erase v } :=
  h.withRecords ⟨rfl, rfl⟩ ⟨rfl, rfl⟩
    { h.same with edits := h.same.edits.erase v }
    { RecordsOn.refl s with
      edits := .erase_right (Sides.hasVariable_eq_false hv) _ }
    { RecordsOn.refl u with
      edits := .erase_right (Sides.hasVariable_eq_false hv) _ }

theorem addEdit (h : Abreast d κ s₀ u₀ s u) (hs : s.Tidy d arts)
    (hu : u.Tidy d arts') (hs₀ : IdleOff d κ s₀) (hu₀ : IdleOff d κ u₀)
    {id : ℕ} {v : Variable} {strength : Strength α}
    (hnew : ∀ i, s.nextId ≤ i → d.ofSymbol i = κ)
    (hid : d.ofConstraint id = κ) (hv : d.ofVariable v = κ) (budget : ℕ) :
    Concur d κ s₀ u₀ (s.addEdit budget id v strength)
      (u.addEdit budget id v strength) := by
  have hedited : s.isEdited v = u.isEdited v :=
    h.same.edits.contains_eq (Sides.hasVariable_eq_true hv)
  unfold Solver.addEdit
  rw [← hedited]
  split
  · exact h.error _
  · split
    · exact h.error _
    · have hreg := h.register hs hu hs₀ hu₀ hnew (on_edit strength hid hv)
        budget
      exact hreg.andThen fun f _ _ => (hreg.state.setEdit hv _).ok ()

theorem removeEdit (h : Abreast d κ s₀ u₀ s u) (hs : s.Tidy d arts)
    (hs₀ : IdleOff d κ s₀) (hu₀ : IdleOff d κ u₀) {v : Variable}
    (hv : d.ofVariable v = κ) (budget : ℕ) :
    Concur d κ s₀ u₀ (s.removeEdit budget v) (u.removeEdit budget v) := by
  unfold Solver.removeEdit
  rw [← h.same.edits.get?_eq (Sides.hasVariable_eq_true hv)]
  cases he : s.edits.get? v with
  | none => exact h.error _
  | some e =>
      have hrem := h.remove hs hs₀ hu₀
        (c := e.constraint.constraint) ((hs.edited he).1.trans hv) budget
      exact hrem.andThen fun _ _ _ => (hrem.state.eraseEdit hv).ok ()

/-- Suggesting the same value. What would lower the objective does not
count. -/
theorem suggest (h : Abreast d κ s₀ u₀ s u) (hs : s.Tidy d arts)
    {v : Variable} (hv : d.ofVariable v = κ) (x : α) (budget : ℕ) :
    Concur d κ s₀ u₀ (s.suggest budget v x) (u.suggest budget v x) := by
  unfold Solver.suggest
  rw [← h.same.edits.get?_eq (Sides.hasVariable_eq_true hv)]
  cases he : s.edits.get? v with
  | none => exact h.error _
  | some e =>
      have hmoved := h.tableau.moveTarget
        (fun y hy => ((hs.edited he).2 y hy).2.trans hv)
        (x - e.constraint.target)
      exact (h.setEdit hv _).onTableau (hmoved.restore budget)

-- ============================================================ commands

/-- A command about one side, but for those that are about both. -/
theorem perform (h : Abreast d κ s₀ u₀ s u) (hs : s.Tidy d arts)
    (hu : u.Tidy d arts') (hs₀ : IdleOff d κ s₀) (hu₀ : IdleOff d κ u₀)
    {c : Command α} (hnew : ∀ i, s.nextId ≤ i → d.ofSymbol i = κ)
    (hc : c.On d κ) (hrefresh : c ≠ .refresh) (hreset : c ≠ .reset)
    (budget : ℕ) :
    Concur d κ s₀ u₀ (s.perform budget c) (u.perform budget c) := by
  cases c with
  | add c => exact h.add hs hu hs₀ hu₀ hnew hc budget
  | remove c => exact h.remove hs hs₀ hu₀ hc budget
  | addEdit id v strength =>
      exact h.addEdit hs hu hs₀ hu₀ hnew hc.1 hc.2 budget
  | removeEdit v => exact h.removeEdit hs hs₀ hu₀ hc budget
  | suggest v x => exact h.suggest hs hc x budget
  | refresh => exact absurd rfl hrefresh
  | reset => exact absurd rfl hreset

omit [LawfulZero α] in
/-- Solvers that are the same on one side, and whose other sides are
quiet, may be worked on there. -/
theorem start (h : SameOn d κ s u) (hn : s.nextId = u.nextId)
    (hs : s.Tidy d arts) (hu : u.Tidy d arts')
    (hquiet : s.tableau.Quiet (Symbol.on d.ofSymbol !κ))
    (hquiet' : u.tableau.Quiet (Symbol.on d.ofSymbol !κ)) :
    Abreast d κ s u s u := by
  have hactive : ∀ {s : Solver α} {arts : List Symbol}, s.Tidy d arts →
      s.tableau.Quiet (Symbol.on d.ofSymbol !κ) →
      Tableau.Active d.ofSymbol κ {x | x.id < s.nextId} s.tableau s.tableau
    := by
    intro s arts hs hquiet
    refine ⟨hs.tableau.mono fun x hx => hx.1, hquiet, .refl _, fun ha => ?_⟩
    rw [hs.auxiliary] at ha
    cases ha
  have hright := hactive hu hquiet'
  rw [← hn] at hright
  exact ⟨hn, le_refl _, ⟨hactive hs hquiet, hright, h.tableau,
    hs.auxiliary.trans hu.auxiliary.symm⟩, h.toRecordsOn, .refl s, .refl u⟩

end Abreast

end Solver

end LinearConstraints
