/-
Independence: parts of a problem that share nothing do not interfere.

Let the variables that commands are about fall into two disjoint sets, and
the constraints with them. Then the answers to the commands about one set,
and the values of its variables, are those of a solver that is given these
commands only. Nothing that the other commands do is noticed, although
both share one tableau with one objective and one stack.

Three solvers take part in the proof: the one that is given all commands;
one that has given out as many numbers, but passes over the other commands
(`Projects`); and the one that is given only commands about the set, which
is like the second but for the numbers of its symbols (`Alike`).

Main statements: `Projects.own` and `Projects.other`, one command;
`independent`, any run of them.
-/
import LinearConstraints.Proofs.Refusal
import LinearConstraints.Proofs.Rest

namespace LinearConstraints

variable {α : Type}

-- ============================================================== parts

/-- The command is about variables of `A` and constraints with numbers in
`I` only. A reset is about everything. -/
def Command.Within (A : Set Variable) (I : Set ℕ) : Command α → Prop
  | .add c => c.id ∈ I ∧ ∀ v ∈ c.expression.vars, v ∈ A
  | .remove c => c.id ∈ I
  | .addEdit id v _ => id ∈ I ∧ v ∈ A
  | .removeEdit v => v ∈ A
  | .suggest v _ => v ∈ A
  | .refresh => True
  | .reset => False

instance (A : Set Variable) (I : Set ℕ) [DecidablePred (· ∈ A)]
    [DecidablePred (· ∈ I)] : (c : Command α) → Decidable (c.Within A I)
  | .add c =>
      inferInstanceAs (Decidable (c.id ∈ I ∧ ∀ v ∈ c.expression.vars, v ∈ A))
  | .remove c => inferInstanceAs (Decidable (c.id ∈ I))
  | .addEdit id v _ => inferInstanceAs (Decidable (id ∈ I ∧ v ∈ A))
  | .removeEdit v => inferInstanceAs (Decidable (v ∈ A))
  | .suggest v _ => inferInstanceAs (Decidable (v ∈ A))
  | .refresh => inferInstanceAs (Decidable True)
  | .reset => inferInstanceAs (Decidable False)

/-- The answers to the commands that pass a test. -/
def answersTo {β : Type} (p : Command α → Bool) :
    List (Command α) → List β → List β
  | c :: commands, a :: answers =>
      if p c then a :: answersTo p commands answers
      else answersTo p commands answers
  | _, _ => []

theorem answersTo_cons_of_pos {β : Type} {p : Command α → Bool}
    {c : Command α} (h : p c = true) (commands : List (Command α)) (a : β)
    (answers : List β) : answersTo p (c :: commands) (a :: answers)
      = a :: answersTo p commands answers := if_pos h

theorem answersTo_cons_of_neg {β : Type} {p : Command α → Bool}
    {c : Command α} (h : ¬ p c = true) (commands : List (Command α)) (a : β)
    (answers : List β) : answersTo p (c :: commands) (a :: answers)
      = answersTo p commands answers := if_neg h

namespace Solver

-- ========================================================== projections

section Projects

variable [Scalar α] {d : Sides} {arts arts' : List Symbol}
  {s u : Solver α} {c : Command α} {κ : Bool}

/-- The second solver has given out as many numbers as the first, is the
same on one side, and has nothing on the other. -/
structure Projects (d : Sides) (arts arts' : List Symbol)
    (s u : Solver α) : Prop where
  nextId : s.nextId = u.nextId
  left : s.Tidy d arts
  right : u.Tidy d arts'
  same : SameOn d true s u
  bare : SameOn d false empty u

theorem projects_empty (d : Sides) :
    Projects d [] [] (empty : Solver α) empty :=
  ⟨rfl, tidy_empty d, tidy_empty d, ⟨.refl _, .refl _⟩, ⟨.refl _, .refl _⟩⟩

namespace Projects

/-- Nothing waits in the second solver if nothing waits in the first. -/
private theorem infeasible (h : Projects d arts arts' s u)
    (hstack : s.tableau.infeasible = []) : u.tableau.infeasible = [] := by
  have htrue := h.same.tableau.infeasible
  have hfalse := h.bare.tableau.infeasible
  rw [hstack] at htrue
  refine List.eq_nil_iff_forall_not_mem.2 fun x hx => ?_
  cases hside : d.ofSymbol x.id with
  | true =>
      have hmem := List.mem_filter.2 ⟨hx, Symbol.on_eq_true.2 hside⟩
      rw [← htrue] at hmem
      cases hmem
  | false =>
      have hmem := List.mem_filter.2 ⟨hx, Symbol.on_eq_true.2 hside⟩
      rw [← hfalse] at hmem
      cases hmem

/-- Symbols that have not been given out may change sides. -/
theorem assign (h : Projects d arts arts' s u)
    (hstack : s.tableau.infeasible = []) (κ : Bool) :
    Projects (d.assign s.nextId κ) arts arts' s u := by
  have hstack' := h.infeasible hstack
  have hsame : ∀ (κ' : Bool) (n : ℕ), ∀ x ∈ {x : Symbol | x.id < n},
      Symbol.on d.ofSymbol κ' x
        = Symbol.on (d.assign n κ).ofSymbol κ' x := by
    intro κ' n x hx
    unfold Symbol.on
    rw [show (d.assign n κ).ofSymbol x.id = d.ofSymbol x.id from if_pos hx]
  have hsub : ∀ {s : Solver α} {arts : List Symbol}, s.Tidy d arts →
      s.tableau.Tidy d.ofSymbol {x | x.id < s.nextId} :=
    fun hs => hs.tableau.mono fun x hx => hx.1
  have hright := hsub h.right
  have hassigned := h.right.assign κ
  rw [← h.nextId] at hright hassigned
  exact ⟨h.nextId, h.left.assign κ, hassigned,
    ⟨⟨h.same.registry, h.same.bindings, h.same.edits⟩,
      h.same.tableau.congr (hsub h.left) hright (hsame true s.nextId)
        hstack hstack'⟩,
    ⟨⟨h.bare.registry, h.bare.bindings, h.bare.edits⟩,
      h.bare.tableau.congr
        ((tidy_empty d).tableau.mono fun _ hx =>
          absurd hx.1 (Nat.not_lt_zero _))
        hright (hsame false s.nextId) rfl hstack'⟩⟩

/-- The side that the second solver has nothing on is quiet. -/
private theorem quiet (h : Projects d arts arts' s u) :
    u.tableau.Quiet (Symbol.on d.ofSymbol !true) :=
  Tableau.Quiet.congr ⟨fun hr => (by cases hr), rfl⟩ h.bare.tableau

private theorem idleOff (h : Projects d arts arts' s u) :
    IdleOff d true u :=
  Row.Idle.congr (fun _ _ hx => by cases hx) h.bare.tableau.objective

variable [LawfulZero α] (budget : ℕ)

/-- A command about the side, in both solvers. -/
theorem own (h : Projects d arts arts' s u)
    (hquiet : s.tableau.Quiet (Symbol.on d.ofSymbol !true))
    (hidle : IdleOff d true s)
    (hnew : ∀ i, s.nextId ≤ i → d.ofSymbol i = true) (hc : c.On d true)
    (hrefresh : c ≠ .refresh) (hreset : c ≠ .reset) :
    (s.perform budget c).result.mapError
          (Error.within (d.hasConstraint true))
        = (u.perform budget c).result.mapError
          (Error.within (d.hasConstraint true))
      ∧ Projects d (s.retired arts c) (u.retired arts' c)
          (s.perform budget c).state (u.perform budget c).state := by
  obtain ⟨hres, hstate⟩ := (Abreast.start h.same h.nextId h.left h.right
    hquiet h.quiet).perform h.left h.right hidle h.idleOff hnew hc hrefresh
      hreset budget
  refine ⟨hres, hstate.nextId, h.left.perform hnew hc budget,
    h.right.perform (h.nextId ▸ hnew) hc budget,
    ⟨hstate.same, hstate.tableau.same⟩, ?_⟩
  exact ⟨h.bare.toRecordsOn.trans hstate.right,
    h.bare.tableau.trans hstate.tableau.right.kept⟩

/-- A command about the other side, which the second solver passes over but
for the numbers. -/
theorem other (h : Projects d arts arts' s u)
    (hquiet : s.tableau.Quiet (Symbol.on d.ofSymbol !false))
    (hidle : IdleOff d false s)
    (hnew : ∀ i, s.nextId ≤ i → d.ofSymbol i = false) (hc : c.On d false)
    (hrefresh : c ≠ .refresh) (hreset : c ≠ .reset) :
    u.nextId ≤ (s.perform budget c).state.nextId
      ∧ Projects d (s.retired arts c) arts' (s.perform budget c).state
          { u with nextId := (s.perform budget c).state.nextId } := by
  have hself : SameOn d false s s := ⟨.refl s, .refl _⟩
  obtain ⟨-, hstate⟩ := (Abreast.start hself rfl h.left h.left hquiet
    hquiet).perform h.left h.left hidle hidle hnew hc hrefresh hreset budget
  have hle := h.nextId ▸ hstate.later
  refine ⟨hle, rfl, h.left.perform hnew hc budget, h.right.raise hle, ?_,
    ⟨h.bare.registry, h.bare.bindings, h.bare.edits⟩, h.bare.tableau⟩
  have hleft := hstate.left
  exact ⟨⟨hleft.registry.symm.trans h.same.registry,
      hleft.bindings.symm.trans h.same.bindings,
      hleft.edits.symm.trans h.same.edits⟩,
    hstate.tableau.left.kept.symm.trans h.same.tableau⟩

omit [LawfulZero α] in
/-- Copying values, in both solvers. -/
theorem refresh (h : Projects d arts arts' s u) :
    Projects d arts arts' s.refresh u.refresh := by
  have hvalue : ∀ {v b}, s.bindings.get? v = some b →
      d.hasVariable true v = true →
      (⟨b.symbol, s.tableau.solution b.symbol⟩ : Binding α)
        = ⟨b.symbol, u.tableau.solution b.symbol⟩ := by
    intro v b hb hv
    have hside : d.ofSymbol b.symbol.id = true :=
      (h.left.bound hb).2.trans (beq_iff_eq.1 hv)
    unfold Tableau.solution
    rw [h.same.tableau.rows.get?_eq (Symbol.on_eq_true.2 hside)]
  exact ⟨h.nextId, h.left.refresh, h.right.refresh,
    ⟨⟨h.same.registry,
      (Table.SameOn.map_congr hvalue).trans (h.same.bindings.map _),
      h.same.edits⟩, h.same.tableau⟩,
    ⟨⟨h.bare.registry, h.bare.bindings.map fun _ b =>
      (⟨b.symbol, u.tableau.solution b.symbol⟩ : Binding α),
      h.bare.edits⟩, h.bare.tableau⟩⟩

omit [LawfulZero α] in
/-- The variables of the side have the same values. -/
theorem value_eq (h : Projects d arts arts' s u) {v : Variable}
    (hv : d.ofVariable v = true) : s.value v = u.value v := by
  unfold value
  rw [h.same.bindings.get?_eq (Sides.hasVariable_eq_true hv)]

omit [LawfulZero α] in
/-- All constraints of the second solver are on the side. -/
theorem constraints_on (h : Projects d arts arts' s u) :
    ∀ c ∈ u.constraints, d.hasConstraint true c.id = true := by
  intro c hc
  obtain ⟨g, hg, rfl⟩ := List.mem_map.1 hc
  obtain ⟨⟨i, g⟩, hmem, rfl⟩ := List.mem_map.1 hg
  have hget := Table.get?_eq_some_iff.2 hmem
  show d.hasConstraint true g.constraint.id = true
  rw [h.right.numbered i g hget]
  cases hi : d.ofConstraint i with
  | true => exact Sides.hasConstraint_eq_true hi
  | false =>
      rw [← h.bare.registry.get?_eq (Sides.hasConstraint_eq_true hi)] at hget
      cases hget

end Projects

end Projects

-- ============================================================= shadows

section Shadows

/-- Numbers that nothing is made of may be given out. -/
private theorem Alike.raise_right [Scalar α] {s t : Solver α}
    (h : Alike s t () ()) {n : ℕ} (hn : t.nextId ≤ n) :
    Alike s { t with nextId := n } () () := by
  obtain ⟨ρ, hs, h, hx, hy⟩ := h
  refine ⟨ρ, hs, { h with image := ?_, extra := ?_ }, hx, hy⟩
  · exact fun i hi => (h.image i hi).trans_le hn
  · intro v b hv hb
    obtain ⟨hk, h₀, hlt, hne⟩ := h.extra hv hb
    exact ⟨hk, h₀, hlt.trans_le hn, hne⟩

variable {d : Sides} {s t : Solver Rat} {c : Command Rat} {budget : ℕ}

/-- The second solver is, but for the numbers of its symbols, what there is
of the first on one side. The division of the symbols does not count. -/
def Shadows (d : Sides) (s t : Solver Rat) : Prop :=
  s.AtRest ∧ (∃ goal, s.Consistent goal) ∧
    ∃ side arts arts' u,
      Projects { d with ofSymbol := side } arts arts' s u ∧ Alike t u () ()

theorem shadows_empty (d : Sides) : Shadows d empty empty :=
  ⟨atRest_empty, ⟨fun _ => 0, consistent_empty _⟩, d.ofSymbol, [], [], empty,
    projects_empty d, numbered_empty.alike⟩

namespace Shadows

/-- The first solver stays at rest and consistent, if the command does not
fail in its tableau. -/
private theorem next (h : Shadows d s t) (hb : c.Built)
    (hno : ∀ e, (s.perform budget c).result = .error e →
      e.isInternal = false) :
    (s.perform budget c).state.AtRest
      ∧ ∃ goal, (s.perform budget c).state.Consistent goal := by
  obtain ⟨hrest, ⟨goal, hcons⟩, -⟩ := h
  refine ⟨hrest.perform hcons hb fun f hf => ?_, ?_⟩
  · cases hno _ hf
  · rcases perform_cases hcons hb budget with ⟨e, he, hfatal⟩ | ⟨-, goal', ht⟩
    · have hint := hno e he
      cases e with
      | failure f => cases hint
      | _ => cases hfatal
    · exact ⟨goal', ht.consistent⟩

/-- A command about the side gets the same answer, but for constraints of
the other side that a refusal names. -/
theorem own (h : Shadows d s t) (hb : c.Built) (hc : c.On d true)
    (hreset : c ≠ .reset)
    (hno : ∀ e, (s.perform budget c).result = .error e →
      e.isInternal = false) :
    (t.perform budget c).result
        = (s.perform budget c).result.mapError
            (Error.within (d.hasConstraint true))
      ∧ Shadows d (s.perform budget c).state (t.perform budget c).state := by
  have hnext := h.next hb hno
  obtain ⟨hrest, -, side, arts, arts', u, hproj, halike⟩ := h
  have hagrees := halike.perform budget c
  by_cases hrefresh : c = .refresh
  · subst hrefresh
    exact ⟨rfl, hnext.1, hnext.2, side, arts, arts', u.refresh,
      hproj.refresh, hagrees.state⟩
  · have hassigned := hproj.assign hrest.infeasible true
    obtain ⟨hres, hproj'⟩ := hassigned.own budget (hrest.quiet _)
      (hrest.idleOff _ _) (fun i hi => if_neg (not_lt.2 hi)) hc hrefresh
      hreset
    refine ⟨?_, hnext.1, hnext.2, _, _, _, _, hproj', hagrees.state⟩
    refine Eq.trans ?_ hres.symm
    -- A refusal of the second solver names constraints of the side only.
    rw [hagrees.result_eq]
    cases he : (t.perform budget c).result with
    | ok x => rfl
    | error e =>
        refine congrArg Except.error ?_
        cases e with
        | unsatisfiable c' conflicting =>
            obtain ⟨ρ, hnum, hren, -⟩ := halike
            have hlist := (hnum.rejects he rfl).lists rfl
            refine congrArg (Error.unsatisfiable c')
              (List.filter_eq_self.2 fun c₁ hc₁ => ?_).symm
            rw [hlist, ← hren.constraints_eq] at hc₁
            exact hproj.constraints_on c₁ hc₁
        | _ => rfl

/-- A command about the other side is passed over. -/
theorem other (h : Shadows d s t) (hb : c.Built) (hc : c.On d false)
    (hrefresh : c ≠ .refresh) (hreset : c ≠ .reset)
    (hno : ∀ e, (s.perform budget c).result = .error e →
      e.isInternal = false) :
    Shadows d (s.perform budget c).state t := by
  have hnext := h.next hb hno
  obtain ⟨hrest, -, side, arts, arts', u, hproj, halike⟩ := h
  have hassigned := hproj.assign hrest.infeasible false
  obtain ⟨hle, hproj'⟩ := hassigned.other budget (hrest.quiet _)
    (hrest.idleOff _ _) (fun i hi => if_neg (not_lt.2 hi)) hc hrefresh hreset
  exact ⟨hnext.1, hnext.2, _, _, _, _, hproj', halike.raise_right hle⟩

theorem value_eq (h : Shadows d s t) {v : Variable}
    (hv : d.ofVariable v = true) : t.value v = s.value v := by
  obtain ⟨-, -, side, arts, arts', u, hproj, ρ, -, hren, -⟩ := h
  rw [hproj.value_eq hv, hren.value_eq]

end Shadows

end Shadows

-- ================================================================ runs

section Runs

variable {A B : Set Variable} {I J : Set ℕ} [DecidablePred (· ∈ A)]
  [DecidablePred (· ∈ I)] {commands : List (Command Rat)} {budget : ℕ}

/-- The variables of `A` and the constraints with numbers in `I` on one
side, and all others on the other. -/
def sidesOf (A : Set Variable) (I : Set ℕ) [DecidablePred (· ∈ A)]
    [DecidablePred (· ∈ I)] : Sides where
  ofSymbol := fun _ => true
  ofVariable := fun v => decide (v ∈ A)
  ofConstraint := fun i => decide (i ∈ I)

private theorem on_true {c : Command Rat} (h : c.Within A I) :
    c.On (sidesOf A I) true := by
  cases c with
  | add c =>
      exact ⟨decide_eq_true h.1, fun v hv => decide_eq_true (h.2 v hv)⟩
  | addEdit id v strength =>
      exact ⟨decide_eq_true h.1, decide_eq_true h.2⟩
  | remove | removeEdit | suggest => exact decide_eq_true h
  | refresh | reset => exact trivial

private theorem on_false (hAB : ∀ v ∈ A, v ∉ B) (hIJ : ∀ i ∈ I, i ∉ J)
    {c : Command Rat} (h : c.Within B J) : c.On (sidesOf A I) false := by
  have hv : ∀ {v}, v ∈ B → decide (v ∈ A) = false := fun hB =>
    decide_eq_false fun hA => hAB _ hA hB
  have hi : ∀ {i}, i ∈ J → decide (i ∈ I) = false := fun hJ =>
    decide_eq_false fun hI => hIJ _ hI hJ
  cases c with
  | add c => exact ⟨hi h.1, fun v hv' => hv (h.2 v hv')⟩
  | addEdit id v strength => exact ⟨hi h.1, hv h.2⟩
  | remove => exact hi h
  | removeEdit | suggest => exact hv h
  | refresh | reset => exact trivial

/-- What the second solver is given of a run, it answers alike, and what it
is not given does not count. -/
private theorem Shadows.run {p : Command Rat → Bool}
    (hp : ∀ c, p c = true ↔ c.Within A I) (hAB : ∀ v ∈ A, v ∉ B)
    (hIJ : ∀ i ∈ I, i ∉ J) {s t : Solver Rat}
    (h : Shadows (sidesOf A I) s t) (hbuilt : ∀ c ∈ commands, c.Built)
    (hparts : ∀ c ∈ commands, c.Within A I ∨ c.Within B J)
    (hanswers : ∀ e, .error e ∈ (s.run budget commands).2 →
      e.isInternal = false) :
    (t.run budget (commands.filter p)).2
        = (answersTo p commands (s.run budget commands).2).map
          (·.mapError (Error.within fun i => i ∈ I))
      ∧ Shadows (sidesOf A I) (s.run budget commands).1
        (t.run budget (commands.filter p)).1 := by
  have hwithin : (fun i => decide (i ∈ I))
      = (sidesOf A I).hasConstraint true :=
    funext fun i => (beq_true (decide (i ∈ I))).symm
  induction commands generalizing s t with
  | nil => exact ⟨rfl, h⟩
  | cons c commands ih =>
      obtain ⟨hb, hbuilt⟩ := List.forall_mem_cons.1 hbuilt
      obtain ⟨hpart, hparts⟩ := List.forall_mem_cons.1 hparts
      have hno : ∀ e, (s.perform budget c).result = .error e →
          e.isInternal = false :=
        fun e he => hanswers e (he ▸ List.mem_cons_self ..)
      have hrest := fun e he => hanswers e (List.mem_cons_of_mem _ he)
      by_cases hown : p c = true
      · have hwith := (hp c).1 hown
        have hreset : c ≠ .reset := fun hc => by
          rw [hc] at hwith
          exact hwith
        obtain ⟨hres, hnext⟩ := h.own hb (on_true hwith) hreset hno
        obtain ⟨hlist, hlast⟩ := ih hnext hbuilt hparts hrest
        rw [List.filter_cons_of_pos hown]
        refine ⟨?_, hlast⟩
        show _ :: _ = (answersTo p (c :: commands) (_ :: _)).map _
        rw [answersTo_cons_of_pos hown, List.map_cons, hlist, hres,
          hwithin]
      · have hother := hpart.resolve_left (mt (hp c).2 hown)
        have hrefresh : c ≠ .refresh := fun hc =>
          hown ((hp c).2 (hc ▸ trivial))
        have hreset : c ≠ .reset := fun hc => by
          rw [hc] at hother
          exact hother
        have hnext :=
          h.other hb (on_false hAB hIJ hother) hrefresh hreset hno
        obtain ⟨hlist, hlast⟩ := ih hnext hbuilt hparts hrest
        rw [List.filter_cons_of_neg hown]
        refine ⟨?_, hlast⟩
        show _ = (answersTo p (c :: commands) (_ :: _)).map _
        rw [answersTo_cons_of_neg hown, hlist]

/-- Parts that share no variables and no constraints do not interfere: the
commands about one part get the answers that they get in a solver of their
own, but that a refusal may name constraints of the other part too, and
its variables get the values that they get there. -/
theorem independent (hAB : ∀ v ∈ A, v ∉ B) (hIJ : ∀ i ∈ I, i ∉ J)
    (hbuilt : ∀ c ∈ commands, c.Built)
    (hparts : ∀ c ∈ commands, c.Within A I ∨ c.Within B J)
    (hanswers : ∀ e, .error e ∈ ((empty : Solver Rat).run budget commands).2
      → e.isInternal = false) :
    ((empty : Solver Rat).run budget
          (commands.filter fun c => c.Within A I)).2
        = (answersTo (fun c => c.Within A I) commands
            ((empty : Solver Rat).run budget commands).2).map
          (·.mapError (Error.within fun i => i ∈ I))
      ∧ ∀ v ∈ A, ((empty : Solver Rat).run budget
            (commands.filter fun c => c.Within A I)).1.value v
          = ((empty : Solver Rat).run budget commands).1.value v := by
  obtain ⟨hlist, hlast⟩ :=
    (shadows_empty _).run (fun _ => decide_eq_true_iff) hAB hIJ hbuilt
      hparts hanswers
  exact ⟨hlist, fun v hv => hlast.value_eq (decide_eq_true hv)⟩

/-- A slider and a label beside it are moved in turns, and the slider is at
last asked for more than it may do. -/
def sideBySide : List (Command Rat) :=
  [.add (.relate 0 (.ofVariable slider) .greaterOrEqual (.ofConstant 0)),
    .add (.relate 1 (.ofVariable label) .greaterOrEqual (.ofConstant 1)),
    .addEdit 10 slider .strong, .addEdit 11 label .strong,
    .suggest slider 5, .suggest label 3,
    .add (.relate 2 (.ofVariable slider) .lessOrEqual (.ofConstant (-1))),
    .suggest label 0, .refresh]

/-- The slider is where it is without the label. -/
theorem sideBySide_independent :
    ((empty : Solver Rat).run 10 (sideBySide.filter fun c =>
          c.Within {v | v = slider} {i | i % 2 = 0})).2
        = (answersTo (fun c => c.Within {v | v = slider} {i | i % 2 = 0})
            sideBySide ((empty : Solver Rat).run 10 sideBySide).2).map
          (·.mapError (Error.within fun i => i ∈ {i | i % 2 = 0}))
      ∧ ((empty : Solver Rat).run 10 (sideBySide.filter fun c =>
          c.Within {v | v = slider} {i | i % 2 = 0})).1.value slider = 5 := by
  have hvariables : ∀ v ∈ {v | v = slider}, v ∉ {v | v = label} :=
    fun v hs hl => absurd (hs.symm.trans hl) (by decide)
  have hconstraints : ∀ i ∈ {i | i % 2 = 0}, i ∉ {i | i % 2 = 1} :=
    fun i h₀ h₁ => absurd (h₀.symm.trans h₁) (by decide)
  have hbuilt : ∀ c ∈ sideBySide, c.Built := by
    simp only [sideBySide, List.forall_mem_cons, List.not_mem_nil,
      false_imp_iff, implies_true, and_true, true_and, Command.Built]
    exact ⟨.new .., .new .., .new ..⟩
  have hparts : ∀ c ∈ sideBySide,
      c.Within {v | v = slider} {i | i % 2 = 0}
        ∨ c.Within {v | v = label} {i | i % 2 = 1} := by decide +kernel
  have hanswers : ∀ e,
      .error e ∈ ((empty : Solver Rat).run 10 sideBySide).2
        → e.isInternal = false := by
    have hno : Except.error true ∉ ((empty : Solver Rat).run 10
        sideBySide).2.map (·.mapError Error.isInternal) := by decide +kernel
    intro e he
    exact Bool.eq_false_iff.2 fun hint =>
      hno (List.mem_map.2 ⟨_, he, congrArg Except.error hint⟩)
  obtain ⟨hsame, hvalue⟩ :=
    independent hvariables hconstraints hbuilt hparts hanswers
  exact ⟨hsame, (hvalue slider rfl).trans (by decide +kernel)⟩

end Runs

end Solver

end LinearConstraints
