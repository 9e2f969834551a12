/-
Refusal: a command that is refused might as well not have been given.

A refused constraint has been turned into a row first, so the solver has
given out symbols and bound variables for it, and its feasibility may have
been tried by pivoting the whole tableau. The tableau is put back, and the
symbols are mentioned nowhere: the solver is like what it was before
(`Renames`), so nothing that it is asked later gives it away.

# Required constraints only

The weights of the error symbols would give it away, but only a required
constraint is ever refused, and it has none. Any other has an error symbol
that takes up the violation, and either it or the slack can be made basic
at once. This needs that adding one to zero gives one and that minus one
is negative and not near zero (`LawfulUnit`), which machine numbers grant
as well.

Main statements: `Numbered.rejects`, what a refused command leaves behind,
and `Reachable.refusal_unseen`: no commands tell it from what was there
before.
-/
import LinearConstraints.Proofs.Lockstep
import LinearConstraints.Proofs.Satisfiability
import LinearConstraints.Solver.Message

namespace LinearConstraints

variable {α : Type} [Scalar α]

-- ================================================================ units

/-- Plus and minus one behave as the coefficients of slack and error
symbols should. -/
class LawfulUnit (α : Type) [Scalar α] : Prop where
  zero_add_one : (0 : α) + 1 = 1
  zero_add_neg_one : (0 : α) + -1 = -1
  neg_neg_one : -(-1 : α) = 1
  neg_one_neg : (-1 : α) < 0
  one_not_near : Scalar.nearZero (1 : α) = false
  neg_one_not_near : Scalar.nearZero (-1 : α) = false

instance : LawfulUnit Rat where
  zero_add_one := by decide +kernel
  zero_add_neg_one := by decide +kernel
  neg_neg_one := by decide +kernel
  neg_one_neg := by decide +kernel
  one_not_near := by decide +kernel
  neg_one_not_near := by decide +kernel

instance : LawfulUnit TolerantRat where
  zero_add_one := LawfulUnit.zero_add_one (α := Rat)
  zero_add_neg_one := LawfulUnit.zero_add_neg_one (α := Rat)
  neg_neg_one := LawfulUnit.neg_neg_one (α := Rat)
  neg_one_neg := LawfulUnit.neg_one_neg (α := Rat)
  one_not_near := by decide +kernel
  neg_one_not_near := by decide +kernel

namespace Row

variable {r : Row α} {x y : Symbol}

/-- Of two symbols, one has the coefficient one and the other minus
one. -/
def Opposes (r : Row α) (x y : Symbol) : Prop :=
  r.cells.get? x = some 1 ∧ r.cells.get? y = some (-1)
    ∨ r.cells.get? x = some (-1) ∧ r.cells.get? y = some 1

variable [LawfulUnit α]

/-- A symbol without a cell gets the coefficient that is added. -/
private theorem get?_addCell_unit (hx : r.cells.get? x = none) {k : α}
    (hk : k = 1 ∨ k = -1) : (r.addCell x k).cells.get? x = some k := by
  have hsum : r.coefficient x + k = k := by
    unfold coefficient
    rw [hx]
    rcases hk with rfl | rfl
    · exact LawfulUnit.zero_add_one
    · exact LawfulUnit.zero_add_neg_one
  have hnear : Scalar.nearZero k = false := by
    rcases hk with rfl | rfl
    · exact LawfulUnit.one_not_near
    · exact LawfulUnit.neg_one_not_near
  simp [get?_addCell, hsum, hnear]

/-- Two symbols that a row does not mention are added with opposite
signs. -/
private theorem opposes_addCell (hx : r.cells.get? x = none)
    (hy : r.cells.get? y = none) (hxy : x ≠ y) {k l : α}
    (hkl : k = 1 ∧ l = -1 ∨ k = -1 ∧ l = 1) :
    ((r.addCell x k).addCell y l).Opposes x y := by
  have hk : k = 1 ∨ k = -1 := hkl.imp And.left And.left
  have hl : l = 1 ∨ l = -1 := hkl.symm.imp And.right And.right
  have hy' : (r.addCell x k).cells.get? y = none := by
    rw [get?_addCell, if_neg hxy, hy]
  have hcellx : ((r.addCell x k).addCell y l).cells.get? x = some k := by
    rw [get?_addCell, if_neg (Ne.symm hxy), get?_addCell_unit hx hk]
  have hcelly := get?_addCell_unit hy' hl
  unfold Opposes
  rcases hkl with ⟨rfl, rfl⟩ | ⟨rfl, rfl⟩
  · exact Or.inl ⟨hcellx, hcelly⟩
  · exact Or.inr ⟨hcellx, hcelly⟩

/-- Changing all signs exchanges the two. -/
theorem Opposes.negated (h : r.Opposes x y) : r.negated.Opposes x y := by
  unfold Opposes
  rcases h with ⟨hx, hy⟩ | ⟨hx, hy⟩
  · right
    simp [hx, hy, LawfulUnit.neg_neg_one]
  · left
    simp [hx, hy, LawfulUnit.neg_neg_one]

end Row

namespace Solver

variable {s t : Solver α} {ρ : Equiv.Perm ℕ} {c : Constraint α}
  {r : Row α} {budget : ℕ}

-- ====================================================== unused symbols

namespace Renames

/-- A symbol that nothing mentions yet goes unnoticed. -/
theorem fresh_right (h : Renames ρ s t) (k : Symbol.Kind) :
    Renames ρ s (t.fresh k).2 where
  tableau := h.tableau
  registry := h.registry
  edits := h.edits
  image := fun i hi => (h.image i hi).trans (Nat.lt_succ_self _)
  bound := h.bound
  extra := fun hv hb =>
    let ⟨hk, h₀, hlt, hne⟩ := h.extra hv hb
    ⟨hk, h₀, hlt.trans (Nat.lt_succ_self _), hne⟩
  apart := h.apart

/-- And so does a variable that is bound to such a symbol. -/
theorem symbolOf_right (h : Renames ρ s t) (v : Variable) :
    Renames ρ s (t.symbolOf v).2 := by
  unfold symbolOf
  cases ht : t.bindings.get? v with
  | some b => exact h
  | none =>
      have hfresh := h.fresh_right .external
      -- The variables bound in excess: the new one, and those before.
      have hget : ∀ {w b}, (t.bindings.insert v
            ⟨⟨.external, t.nextId⟩, 0⟩).get? w = some b →
          v = w ∧ b = ⟨⟨.external, t.nextId⟩, 0⟩
            ∨ v ≠ w ∧ t.bindings.get? w = some b := by
        intro w b hb
        rw [Table.get?_insert] at hb
        split at hb
        case isTrue hvw => exact Or.inl ⟨hvw, (Option.some.inj hb).symm⟩
        case isFalse hvw => exact Or.inr ⟨hvw, hb⟩
      refine { hfresh with bound := ?_, extra := ?_, apart := ?_ }
      · intro w b hb
        have hbound := h.bound hb
        refine (Table.get?_insert ..).trans ?_
        rw [if_neg (Table.ne_of_get? hbound ht).symm]
        exact hbound
      · intro w b hw hb
        rcases hget hb with ⟨-, rfl⟩ | ⟨-, hb⟩
        · exact ⟨rfl, rfl, Nat.lt_succ_self _,
            fun i hi => (h.image i hi).ne⟩
        · exact hfresh.extra hw hb
      · intro w w' b b' hw hw' hb hb' hid
        rcases hget hb with ⟨rfl, rfl⟩ | ⟨-, hb⟩
        · rcases hget hb' with ⟨rfl, -⟩ | ⟨-, hb'⟩
          · rfl
          · exact absurd hid (h.extra hw' hb').2.2.1.ne'
        · rcases hget hb' with ⟨rfl, rfl⟩ | ⟨-, hb'⟩
          · exact absurd hid (h.extra hw hb).2.2.1.ne
          · exact h.apart hw hw' hb hb' hid

theorem rowOf_right (h : Renames ρ s t) (e : Expression α) :
    Renames ρ s (t.rowOf e).2 := by
  have key : ∀ (terms : List (Term α)) {t : Solver α} (r : Row α),
      Renames ρ s t → Renames ρ s (terms.foldl addTerm (r, t)).2 := by
    intro terms
    induction terms with
    | nil => exact fun _ h => h
    | cons term terms ih =>
        intro t r h
        refine ih (addTerm (r, t) term).1 (t := (addTerm (r, t) term).2) ?_
        unfold addTerm
        split
        · exact h
        · exact h.symbolOf_right term.var
  exact key e.terms _ h

/-- Posing a required constraint goes unnoticed. -/
theorem equation_right (h : Renames ρ s t)
    (hc : c.strength.isRequired = true) :
    Renames ρ s (t.equation c).2.2 := by
  have hrow := h.rowOf_right c.expression
  unfold equation
  cases c.relation with
  | lessOrEqual =>
      simp only [closeInequality, if_pos hc]
      exact hrow.fresh_right .slack
  | greaterOrEqual =>
      simp only [closeInequality, if_pos hc]
      exact hrow.fresh_right .slack
  | equal =>
      simp only [closeEquality, if_pos hc]
      exact hrow.fresh_right .dummy

end Renames

-- ========================================================== refusals

/-- The solver `s` rejects something with an error and is `t` then: `t` is
like `s`, and a conflict names what is registered with `s`. -/
structure Rejects (s t : Solver α) (e : Error α) : Prop where
  renames : Renames 1 s t
  lists : ∀ {d l}, e = .unsatisfiable d l → l = s.constraints

namespace Rejects

/-- An error that names no conflict. -/
theorem of_ne {e : Error α} (h : Renames 1 s t)
    (he : ∀ d l, e ≠ .unsatisfiable d l) : s.Rejects t e :=
  ⟨h, fun heq => absurd heq (he _ _)⟩

theorem unsatisfiable (h : Renames 1 s t) (c : Constraint α) :
    s.Rejects t (t.unsatisfiable c) where
  renames := h
  lists := fun heq => by
    obtain ⟨-, rfl⟩ := Error.unsatisfiable.inj heq
    exact h.constraints_eq

end Rejects

/-- Only an internal error keeps a row from being solved. -/
private theorem isInternal_of_define {x : Symbol} {e : Error α}
    (he : (s.define r x).result = .error e) : e.isInternal = true := by
  unfold define at he
  split at he
  · cases he
  · obtain rfl := Except.error.inj he
    rfl

/-- A new equation that is refused leaves no trace but symbols. -/
theorem rejects_enter {e : Error α} {f : Footprint} (h : Renames 1 s t)
    (he : (t.enter budget c r f).result = .error e)
    (hext : e.isInternal = false) :
    s.Rejects (t.enter budget c r f).state e := by
  have hno : ∀ {p : Prop}, e.isInternal = true → p := fun hint =>
    absurd hint (by simp [hext])
  unfold enter at he ⊢
  cases hp : pivotFor? r f with
  | some x =>
      rw [hp] at he
      exact hno (isInternal_of_define he)
  | none =>
      rw [hp] at he
      dsimp only at he ⊢
      by_cases hd : r.onlyDummies = true
      · rw [if_pos hd] at he ⊢
        by_cases hz : Scalar.nearZero r.constant = true
        · rw [if_pos hz] at he
          exact hno (isInternal_of_define he)
        · rw [if_neg hz] at he ⊢
          obtain rfl := Except.error.inj he
          exact .unsatisfiable h c
      · rw [if_neg hd] at he ⊢
        -- An artificial symbol is made, and the tableau is put back.
        have hfresh := h.fresh_right .slack
        generalize t.fresh .slack = q at hfresh he ⊢
        obtain ⟨art, u⟩ := q
        dsimp only at hfresh he ⊢
        unfold Outcome.andThen at he ⊢
        split at he
        case h_1 feasible hres =>
          cases feasible with
          | true => cases he
          | false =>
              obtain rfl := Except.error.inj he
              have hback : (u.onTableau
                  (u.tableau.adjoin budget art r)).state = u := by
                unfold onTableau
                rw [Tableau.adjoin_state_of_ne_ok (by
                  rw [ok_of_onTableau hres]
                  simp)]
              rw [hback]
              exact .unsatisfiable hfresh c
        case h_2 x hres =>
          obtain ⟨f, -, rfl⟩ := error_of_onTableau hres
          obtain rfl := Except.error.inj he
          cases hext

-- ================================================ other constraints

variable [LawfulUnit α]

/-- The equation of a constraint that may be violated opposes its two
symbols, both of which may be made basic. -/
theorem Numbered.opposes_equation (hs : s.Numbered)
    (hc : c.strength.isRequired = false) :
    ∃ y, (s.equation c).2.1.companion = some y
      ∧ (s.equation c).2.1.marker.isPivotable = true
      ∧ y.isPivotable = true
      ∧ (s.equation c).1.Opposes (s.equation c).2.1.marker y := by
  have hbelow : Below (s.rowOf c.expression).2.nextId
      (s.rowOf c.expression).1 := by
    obtain ⟨ρ, -, -, hrow, -⟩ := hs.alike.rowOf c.expression
    exact hrow.map (f := Prod.fst) fun _ => rfl
  have hne : ∀ {k k' : Symbol.Kind} {i : ℕ},
      (⟨k, i⟩ : Symbol) ≠ ⟨k', i + 1⟩ := by
    intro k k' i heq
    have := congrArg Symbol.id heq
    simp at this
  -- The two symbols have just been given out.
  have hpair : ∀ (k k' : Symbol.Kind) {a b : α},
      a = 1 ∧ b = -1 ∨ a = -1 ∧ b = 1 →
        (((s.rowOf c.expression).1.addCell
          ⟨k, (s.rowOf c.expression).2.nextId⟩ a).addCell
          ⟨k', (s.rowOf c.expression).2.nextId + 1⟩ b).Opposes
            ⟨k, (s.rowOf c.expression).2.nextId⟩
            ⟨k', (s.rowOf c.expression).2.nextId + 1⟩ :=
    fun k k' _ _ hab =>
      Row.opposes_addCell (Row.get?_of_below hbelow (le_refl _))
        (Row.get?_of_below hbelow (Nat.le_succ _)) hne hab
  have hturned : ∀ {r : Row α} {x y : Symbol}, r.Opposes x y →
      (if r.constant < 0 then r.negated else r).Opposes x y := by
    intro r x y hr
    split
    · exact hr.negated
    · exact hr
  unfold equation
  cases c.relation with
  | lessOrEqual =>
      simp only [closeInequality, hc, Bool.false_eq_true, if_false]
      exact ⟨_, rfl, rfl, rfl,
        hturned (hpair .slack .error (Or.inl ⟨rfl, rfl⟩))⟩
  | greaterOrEqual =>
      simp only [closeInequality, hc, Bool.false_eq_true, if_false]
      exact ⟨_, rfl, rfl, rfl, hturned (hpair .slack .error
        (Or.inr ⟨rfl, LawfulUnit.neg_neg_one⟩))⟩
  | equal =>
      simp only [closeEquality, hc, Bool.false_eq_true, if_false]
      exact ⟨_, rfl, rfl, rfl,
        hturned (hpair .error .error (Or.inr ⟨rfl, rfl⟩))⟩

/-- A row that opposes two symbols which may be made basic is solved for
an external symbol or for one of the two. -/
private theorem pivotFor?_of_opposes {f : Footprint} {y : Symbol}
    (hf : f.companion = some y) (hm : f.marker.isPivotable = true)
    (hy : y.isPivotable = true) (h : r.Opposes f.marker y) :
    ∃ x d, pivotFor? r f = some x ∧ r.isolate? x = some d := by
  have hneg : ∀ {x : Symbol}, r.cells.get? x = some (-1) →
      r.coefficient x < 0 := by
    intro x hx
    simp [Row.coefficient, hx, LawfulUnit.neg_one_neg]
  have hcell : ∃ x, pivotFor? r f = some x
      ∧ ∃ k, r.cells.get? x = some k := by
    unfold pivotFor?
    cases hext : r.symbols.find? Symbol.isExternal with
    | some x =>
        have hmem := List.mem_of_find?_eq_some hext
        exact ⟨x, rfl, Table.mem_keys_iff.1 hmem⟩
    | none =>
        -- The marker is looked at first.
        by_cases hmarker : r.coefficient f.marker < 0
        · refine ⟨f.marker, by simp [hm, hmarker], ?_⟩
          rcases h with ⟨hx, -⟩ | ⟨hx, -⟩
          · exact ⟨_, hx⟩
          · exact ⟨_, hx⟩
        · rcases h with ⟨-, hcell⟩ | ⟨hcell, -⟩
          · exact ⟨y, by simp [hm, hmarker, hf, hy, hneg hcell], _, hcell⟩
          · exact absurd (hneg hcell) hmarker
  obtain ⟨x, hx, k, hk⟩ := hcell
  refine ⟨x, (r.discard x).scaled (-1 / k), hx, ?_⟩
  simp [Row.isolate?, hk]

/-- The equation of a constraint that may be violated can be solved at
once. -/
theorem pivotFor?_equation (hs : s.Numbered)
    (hc : c.strength.isRequired = false) :
    ∃ x d, pivotFor? (s.equation c).1 (s.equation c).2.1 = some x
      ∧ (s.equation c).1.isolate? x = some d := by
  obtain ⟨y, hf, hm, hy, hopposes⟩ := hs.opposes_equation hc
  exact pivotFor?_of_opposes hf hm hy hopposes

-- ============================================================ commands

omit [LawfulUnit α] in
/-- Bringing the tableau to its minimum refuses nothing. -/
private theorem isInternal_of_settle {e : Error α}
    (he : (s.settle budget).result = .error e) : e.isInternal = true := by
  obtain ⟨f, -, rfl⟩ := error_of_onTableau he
  rfl

/-- A constraint that is refused leaves no trace but symbols. -/
theorem rejects_register {e : Error α} (hs : s.Numbered)
    (he : (s.register budget c).result = .error e)
    (hext : e.isInternal = false) :
    s.Rejects (s.register budget c).state e := by
  unfold register at he ⊢
  by_cases hc : s.contains c = true
  · rw [if_pos hc] at he ⊢
    obtain rfl := Except.error.inj he
    exact .of_ne (.refl s) fun _ _ h => by cases h
  · rw [if_neg hc] at he ⊢
    dsimp only at he ⊢
    rcases Outcome.error_of_andThen he with ⟨hent, hstate⟩ | ⟨u, -, hrest⟩
    · rw [hstate]
      cases hreq : c.strength.isRequired with
      | true =>
          exact rejects_enter ((Renames.refl s).equation_right hreq) hent hext
      | false =>
          obtain ⟨x, -, hx, -⟩ := pivotFor?_equation hs hreq
          unfold enter at hent
          rw [hx] at hent
          rw [isInternal_of_define hent] at hext
          cases hext
    · rw [hrest] at he
      rcases Outcome.error_of_andThen he with ⟨hset, -⟩ | ⟨_, -, hok⟩
      · rw [isInternal_of_settle hset] at hext
        cases hext
      · rw [hok] at he
        cases he

theorem rejects_add {e : Error α} (hs : s.Numbered)
    (he : (s.add budget c).result = .error e)
    (hext : e.isInternal = false) :
    s.Rejects (s.add budget c).state e := by
  unfold add at he ⊢
  rcases Outcome.error_of_andThen he with ⟨hreg, hstate⟩ | ⟨_, -, hok⟩
  · exact hstate ▸ rejects_register hs hreg hext
  · rw [hok] at he
    cases he

omit [LawfulUnit α] in
/-- Nothing is removed that is not there. -/
theorem rejects_remove {e : Error α}
    (he : (s.remove budget c).result = .error e)
    (hext : e.isInternal = false) :
    s.Rejects (s.remove budget c).state e := by
  unfold remove at he ⊢
  cases hg : s.registry.get? c.id with
  | none =>
      rw [hg] at he
      obtain rfl := Except.error.inj he
      exact .of_ne (.refl s) fun _ _ h => by cases h
  | some g =>
      rw [hg] at he
      dsimp only at he
      split at he
      · obtain rfl := Except.error.inj he
        cases hext
      · rw [isInternal_of_settle he] at hext
        cases hext

theorem rejects_addEdit {id : ℕ} {v : Variable} {strength : Strength α}
    {e : Error α} (hs : s.Numbered)
    (he : (s.addEdit budget id v strength).result = .error e)
    (hext : e.isInternal = false) :
    s.Rejects (s.addEdit budget id v strength).state e := by
  unfold addEdit at he ⊢
  by_cases hv : s.isEdited v = true
  · rw [if_pos hv] at he ⊢
    obtain rfl := Except.error.inj he
    exact .of_ne (.refl s) fun _ _ h => by cases h
  · rw [if_neg hv] at he ⊢
    by_cases hreq : strength.clip.isRequired = true
    · rw [if_pos hreq] at he ⊢
      obtain rfl := Except.error.inj he
      exact .of_ne (.refl s) fun _ _ h => by cases h
    · rw [if_neg hreq] at he ⊢
      rcases Outcome.error_of_andThen he with ⟨hreg, hstate⟩ | ⟨_, -, hok⟩
      · exact hstate ▸ rejects_register hs hreg hext
      · rw [hok] at he
        cases he

omit [LawfulUnit α] in
theorem rejects_removeEdit {v : Variable} {e : Error α}
    (he : (s.removeEdit budget v).result = .error e)
    (hext : e.isInternal = false) :
    s.Rejects (s.removeEdit budget v).state e := by
  unfold removeEdit at he ⊢
  cases hv : s.edits.get? v with
  | none =>
      rw [hv] at he
      obtain rfl := Except.error.inj he
      exact .of_ne (.refl s) fun _ _ h => by cases h
  | some k =>
      rw [hv] at he
      dsimp only at he ⊢
      rcases Outcome.error_of_andThen he with ⟨hrem, hstate⟩ | ⟨_, -, hok⟩
      · exact hstate ▸ rejects_remove hrem hext
      · rw [hok] at he
        cases he

omit [LawfulUnit α] in
theorem rejects_suggest {v : Variable} {value : α} {e : Error α}
    (he : (s.suggest budget v value).result = .error e)
    (hext : e.isInternal = false) :
    s.Rejects (s.suggest budget v value).state e := by
  unfold suggest at he ⊢
  cases hv : s.edits.get? v with
  | none =>
      rw [hv] at he
      obtain rfl := Except.error.inj he
      exact .of_ne (.refl s) fun _ _ h => by cases h
  | some k =>
      rw [hv] at he
      obtain ⟨f, -, rfl⟩ := error_of_onTableau he
      cases hext

/-- A command that is refused leaves no trace but symbols. -/
theorem Numbered.rejects (hs : s.Numbered) {command : Command α}
    {e : Error α} (he : (s.perform budget command).result = .error e)
    (hext : e.isInternal = false) :
    s.Rejects (s.perform budget command).state e := by
  cases command with
  | add c => exact rejects_add hs he hext
  | remove c => exact rejects_remove he hext
  | addEdit id v strength => exact rejects_addEdit hs he hext
  | removeEdit v => exact rejects_removeEdit he hext
  | suggest v value => exact rejects_suggest he hext
  | refresh => cases he
  | reset => cases he

-- ============================================================= results

omit [LawfulUnit α] in
/-- No commands tell two solvers apart: they give the same answers, and
then the same constraints, edit constraints and values. -/
def Indistinguishable (s t : Solver α) : Prop :=
  ∀ budget commands,
    (t.run budget commands).2 = (s.run budget commands).2
      ∧ (t.run budget commands).1.constraints
          = (s.run budget commands).1.constraints
      ∧ (∀ v, (t.run budget commands).1.edit? v
          = (s.run budget commands).1.edit? v)
      ∧ ∀ v, (t.run budget commands).1.value v
          = (s.run budget commands).1.value v

omit [LawfulUnit α] in
theorem Renames.indistinguishable (hs : s.Numbered) (h : Renames 1 s t) :
    Indistinguishable s t := by
  intro budget commands
  have halike : Alike s t () () := ⟨1, hs, h, fun _ _ => rfl, rfl⟩
  obtain ⟨hanswers, ρ, -, h, -⟩ := halike.run budget commands
  exact ⟨hanswers, h.constraints_eq, h.edit?_eq, h.value_eq⟩

/-- A command that ends with an error which is not internal changes
neither the tableau nor the constraints, the edits or any value; a conflict
names all registered constraints in order; and no commands tell what it
leaves behind from what was there before. -/
theorem Reachable.refusal_unseen {allowed : Solver α → Command α → Prop}
    (h : Reachable allowed s) {command : Command α} {e : Error α}
    (he : (s.perform budget command).result = .error e)
    (hext : e.isInternal = false) :
    (s.perform budget command).state.tableau = s.tableau
      ∧ (s.perform budget command).state.registry = s.registry
      ∧ (s.perform budget command).state.edits = s.edits
      ∧ (∀ v, (s.perform budget command).state.value v = s.value v)
      ∧ (∀ d conflicting, e = .unsatisfiable d conflicting →
          conflicting = s.constraints)
      ∧ s.Indistinguishable (s.perform budget command).state := by
  have hrej := h.numbered.rejects he hext
  have hren := hrej.renames
  have hself := Renames.refl s
  refine ⟨?_, ?_, ?_, hren.value_eq, fun _ _ => hrej.lists,
    hren.indistinguishable h.numbered⟩
  · exact hren.tableau.trans hself.tableau.symm
  · exact hren.registry.trans hself.registry.symm
  · exact hren.edits.trans hself.edits.symm

/-- The slider refuses to go past its end: it has given out symbols for
that, and nothing tells. -/
theorem pulledSlider_refusal_unseen :
    ∃ e, (pulledSlider.perform 10 (.add pastEnd)).result = .error e
      ∧ e.isInternal = false
      ∧ (∃ d, e = .unsatisfiable d pulledSlider.constraints)
      ∧ pulledSlider.nextId
          < (pulledSlider.perform 10 (.add pastEnd)).state.nextId
      ∧ pulledSlider.Indistinguishable
          (pulledSlider.perform 10 (.add pastEnd)).state := by
  have hrefused : (match (pulledSlider.perform 10 (.add pastEnd)).result with
      | .error (.unsatisfiable ..) => true
      | _ => false) = true := by decide +kernel
  split at hrefused
  case h_1 d l he =>
    obtain ⟨-, -, -, -, hlist, hsame⟩ :=
      Reachable.refusal_unseen reachable_pulledSlider he rfl
    have hmade : pulledSlider.nextId
        < (pulledSlider.perform 10 (.add pastEnd)).state.nextId := by
      decide +kernel
    exact ⟨_, he, rfl, ⟨d, by rw [hlist d l rfl]⟩, hmade, hsame⟩
  · cases hrefused

end Solver

end LinearConstraints
