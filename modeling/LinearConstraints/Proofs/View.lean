/-
Views: what a caller sees of a solver.

A caller sees the registered constraints, the edit variables and the
values copied last. Most of the work that an operation does changes none
of these: symbols are made, variables bound, the tableau pivoted. So what
an operation does to a view is one entry written or erased, whatever the
tableau came to, and this holds of every kind of number.

Main statements: `register_view`, `remove_view` and `suggest_view`, one
for each operation that works on the tableau.
-/
import LinearConstraints.Solver.Edits

namespace LinearConstraints.Solver

variable {α : Type} [Scalar α] {s s' s'' : Solver α} {c : Constraint α}
  {budget : Nat}

/-- A caller sees the same: the constraints, the edits and the values
copied last. -/
structure SameView (s s' : Solver α) : Prop where
  registry : s'.registry = s.registry
  edits : s'.edits = s.edits
  value : ∀ v, s'.value v = s.value v

namespace SameView

theorem refl (s : Solver α) : SameView s s := ⟨rfl, rfl, fun _ => rfl⟩

theorem trans (h : SameView s s') (h' : SameView s' s'') :
    SameView s s'' where
  registry := h'.registry.trans h.registry
  edits := h'.edits.trans h.edits
  value := fun v => (h'.value v).trans (h.value v)

end SameView

-- ======================================================= the equation

theorem sameView_fresh (s : Solver α) (kind : Symbol.Kind) :
    SameView s (s.fresh kind).2 := ⟨rfl, rfl, fun _ => rfl⟩

/-- A variable that is seen for the first time has the value that it had
before. -/
theorem sameView_symbolOf (s : Solver α) (v : Variable) :
    SameView s (s.symbolOf v).2 := by
  unfold symbolOf
  cases hv : s.bindings.get? v with
  | some b => exact .refl s
  | none =>
      refine ⟨rfl, rfl, fun w => ?_⟩
      unfold value
      dsimp only
      rw [Table.get?_insert]
      by_cases hvw : v = w
      · subst hvw
        rw [if_pos rfl, hv]
      · rw [if_neg hvw]
        rfl

theorem sameView_addTerm (r : Row α) (s : Solver α) (t : Term α) :
    SameView s (addTerm (r, s) t).2 := by
  unfold addTerm
  split
  · exact .refl s
  · exact sameView_symbolOf s t.var

theorem sameView_rowOf (s : Solver α) (e : Expression α) :
    SameView s (s.rowOf e).2 := by
  have key : ∀ (terms : List (Term α)) (p : Row α × Solver α),
      SameView p.2 (terms.foldl addTerm p).2 := by
    intro terms
    induction terms with
    | nil => intro p; exact .refl p.2
    | cons t terms ih =>
        intro p
        exact (sameView_addTerm p.1 p.2 t).trans (ih _)
  exact key e.terms (.ofConstant e.constant, s)

theorem sameView_closeInequality (s : Solver α) (r : Row α) (sign : α)
    (strength : Strength α) :
    SameView s (s.closeInequality r sign strength).2.2 := by
  unfold closeInequality
  dsimp only
  split
  · exact sameView_fresh s .slack
  · exact ⟨rfl, rfl, fun _ => rfl⟩

theorem sameView_closeEquality (s : Solver α) (r : Row α)
    (strength : Strength α) :
    SameView s (s.closeEquality r strength).2.2 := by
  unfold closeEquality
  split
  · exact sameView_fresh s .dummy
  · exact ⟨rfl, rfl, fun _ => rfl⟩

/-- Posing a constraint makes symbols, which no caller sees. -/
theorem sameView_equation (s : Solver α) (c : Constraint α) :
    SameView s (s.equation c).2.2 := by
  have hrow := sameView_rowOf s c.expression
  unfold equation
  cases c.relation with
  | lessOrEqual => exact hrow.trans (sameView_closeInequality _ _ _ _)
  | greaterOrEqual => exact hrow.trans (sameView_closeInequality _ _ _ _)
  | equal => exact hrow.trans (sameView_closeEquality _ _ _)

-- ======================================================== the tableau

/-- Nor does a caller see work on the tableau. -/
theorem sameView_onTableau {ρ : Type} (s : Solver α)
    (o : Outcome (Tableau α) Tableau.Failure ρ) :
    SameView s (s.onTableau o).state := ⟨rfl, rfl, fun _ => rfl⟩

theorem sameView_define (s : Solver α) (r : Row α) (x : Symbol) :
    SameView s (s.define r x).state := by
  unfold define
  split <;> exact ⟨rfl, rfl, fun _ => rfl⟩

theorem sameView_enter (budget : Nat) (s : Solver α) (c : Constraint α)
    (r : Row α) (f : Footprint) :
    SameView s (s.enter budget c r f).state := by
  unfold enter
  cases pivotFor? r f with
  | some x => exact sameView_define s r x
  | none =>
      dsimp only
      split
      · split
        · exact sameView_define s r _
        · exact .refl s
      · unfold Outcome.andThen onTableau
        dsimp only
        split
        · split <;> exact ⟨rfl, rfl, fun _ => rfl⟩
        · exact ⟨rfl, rfl, fun _ => rfl⟩

theorem sameView_forgive (s : Solver α) (g : Registration α) :
    SameView s (s.forgive g) := by
  unfold forgive
  split <;> exact ⟨rfl, rfl, fun _ => rfl⟩

-- =========================================================== outcomes

omit [Scalar α] in
/-- Work on the tableau answers, or fails as the tableau does. -/
private theorem result_onTableau {ρ : Type} (s : Solver α)
    (o : Outcome (Tableau α) Tableau.Failure ρ) :
    (∃ r, (s.onTableau o).result = .ok r)
      ∨ ∃ f, (s.onTableau o).result = .error (.failure f) := by
  unfold onTableau
  dsimp only
  cases o.result with
  | ok r => exact Or.inl ⟨r, rfl⟩
  | error f => exact Or.inr ⟨f, rfl⟩

omit [Scalar α] in
private theorem get?_of_contains_eq_false (h : s.contains c = false) :
    s.registry.get? c.id = none := by
  unfold contains Table.contains at h
  cases hg : s.registry.get? c.id with
  | none => rfl
  | some g =>
      rw [hg] at h
      cases h

/-- Registering a constraint refuses it and is not seen, or writes one
registration, even where it fails to lower the objective afterwards. -/
theorem register_view (budget : Nat) (s : Solver α) (c : Constraint α) :
    (s.contains c = true
        ∧ s.register budget c = .error s (.duplicateConstraint c))
      ∨ s.registry.get? c.id = none
        ∧ ((∃ e, (s.register budget c).result = .error e
            ∧ SameView s (s.register budget c).state)
          ∨ ∃ f, SameView { s with registry := s.registry.insert c.id ⟨c, f⟩ }
              (s.register budget c).state
            ∧ ((s.register budget c).result = .ok f
              ∨ ∃ e, (s.register budget c).result = .error (.failure e))) := by
  unfold register
  cases hc : s.contains c with
  | true => exact Or.inl ⟨rfl, by rw [if_pos rfl]⟩
  | false =>
      rw [if_neg Bool.false_ne_true]
      have hview := (sameView_equation s c).trans (sameView_enter budget
        (s.equation c).2.2 c (s.equation c).1 (s.equation c).2.1)
      generalize s.equation c = q at hview ⊢
      obtain ⟨r, f, s₁⟩ := q
      dsimp only at hview ⊢
      refine Or.inr ⟨get?_of_contains_eq_false hc, ?_⟩
      cases henter : (s₁.enter budget c r f).result with
      | error e =>
          refine Or.inl ⟨e, ?_⟩
          unfold Outcome.andThen
          rw [henter]
          exact ⟨rfl, hview⟩
      | ok u =>
          refine Or.inr ⟨f, ?_⟩
          rw [Outcome.andThen_of_ok henter]
          generalize (s₁.enter budget c r f).state = s₂ at hview ⊢
          have hset : SameView { s with registry := s.registry.insert c.id ⟨c, f⟩ }
              { s₂ with registry := s₂.registry.insert c.id ⟨c, f⟩ } :=
            ⟨by rw [hview.registry], hview.edits, hview.value⟩
          generalize ({ s₂ with registry := s₂.registry.insert c.id ⟨c, f⟩ } :
            Solver α) = s₃ at hset ⊢
          have hlast := hset.trans
            (sameView_onTableau s₃ (s₃.tableau.minimise budget .main))
          rcases result_onTableau s₃ (s₃.tableau.minimise budget .main) with
            ⟨r', hr'⟩ | ⟨e, he⟩
          · unfold settle
            rw [Outcome.andThen_of_ok hr']
            exact ⟨hlast, Or.inl rfl⟩
          · unfold settle Outcome.andThen
            rw [he]
            exact ⟨hlast, Or.inr ⟨e, rfl⟩⟩

/-- Removing a constraint erases one registration, even where it fails
afterwards. -/
theorem remove_view (budget : Nat) (s : Solver α) (c : Constraint α) :
    (s.registry.get? c.id = none
        ∧ s.remove budget c = .error s (.unknownConstraint c))
      ∨ (∃ g, s.registry.get? c.id = some g)
        ∧ SameView { s with registry := s.registry.erase c.id }
            (s.remove budget c).state
        ∧ ((s.remove budget c).result = .ok ()
          ∨ ∃ e, (s.remove budget c).result = .error (.failure e)) := by
  unfold remove
  cases hg : s.registry.get? c.id with
  | none => exact Or.inl ⟨rfl, rfl⟩
  | some g =>
      refine Or.inr ⟨⟨g, rfl⟩, ?_⟩
      dsimp only
      have hview := sameView_forgive
        { s with registry := s.registry.erase c.id } g
      generalize forgive { s with registry := s.registry.erase c.id } g = s₁
        at hview ⊢
      split
      · exact ⟨hview, Or.inr ⟨_, rfl⟩⟩
      case h_2 t _ =>
        have hlast : SameView { s with registry := s.registry.erase c.id }
            (({ s₁ with tableau := t } : Solver α).settle budget).state :=
          ⟨hview.registry, hview.edits, hview.value⟩
        refine ⟨hlast, ?_⟩
        unfold settle
        exact (result_onTableau _ _).imp_left fun ⟨_, hr⟩ => hr

/-- A suggestion rewrites one edit, even where it fails afterwards. -/
theorem suggest_view (budget : Nat) (s : Solver α) (v : Variable) (x : α) :
    (s.edits.get? v = none
        ∧ s.suggest budget v x = .error s (.unknownEdit v))
      ∨ ∃ e, s.edits.get? v = some e
        ∧ SameView
            { s with
              edits := s.edits.insert v
                { e with constraint := e.constraint.suggest x } }
            (s.suggest budget v x).state
        ∧ ((s.suggest budget v x).result = .ok ()
          ∨ ∃ f, (s.suggest budget v x).result = .error (.failure f)) := by
  unfold suggest
  cases he : s.edits.get? v with
  | none => exact Or.inl ⟨rfl, rfl⟩
  | some e =>
      refine Or.inr ⟨e, rfl, ⟨rfl, rfl, fun _ => rfl⟩, ?_⟩
      exact (result_onTableau _ _).imp_left fun ⟨_, hr⟩ => hr

end LinearConstraints.Solver
