/-
Abreast: work on one side of two tableaux.

The symbols fall into two sides, and the rows keep to theirs. Work on one
side chooses by what it finds there, as long as the other side offers it
nothing: no row of it is negative or waits to be repaired, and where the
main objective is to be minimised, none of its symbols lowers it. So two
tableaux that are the same on the one side stay the same there, step for
step and with the same answers, and each keeps its other side, whatever
that is. With the same tableau taken twice, this says that work on one
side leaves the other side alone.

Main statements: `Abreast.minimise`, `Abreast.restore`, `Abreast.adjoin`,
`Abreast.dropMarker` and `Abreast.moveTarget`.
-/
import LinearConstraints.Proofs.Restriction

namespace LinearConstraints

-- =============================================================== loops

section Match

variable {σ ε ρ : Type} {R : σ → σ → Prop}

/-- Two steps that both go on or both stop with the same result, in
related states. -/
inductive Step.Match (R : σ → σ → Prop) : Step σ ε → Step σ ε → Prop where
  | stop {s t : σ} (h : R s t) (result : Except ε Unit) :
      Match R (.stop s result) (.stop t result)
  | next {s t : σ} (h : R s t) : Match R (.next s) (.next t)

/-- Two outcomes with the same result, in related states. -/
structure Outcome.Match (R : σ → σ → Prop) (o o' : Outcome σ ε ρ) :
    Prop where
  result : o.result = o'.result
  state : R o.state o'.state

/-- Loops whose steps match end alike. -/
theorem iterate_match {step : σ → Step σ ε} {spent : ε}
    (hstep : ∀ s t, R s t → (step s).Match R (step t)) (budget : ℕ) {s t : σ}
    (h : R s t) :
    (iterate step spent budget s).Match R (iterate step spent budget t) := by
  induction budget generalizing s t with
  | zero => exact ⟨rfl, h⟩
  | succ n ih =>
      have hmatch := hstep s t h
      unfold iterate
      generalize step s = a at hmatch
      generalize step t = b at hmatch
      cases hmatch with
      | stop h result => exact ⟨rfl, h⟩
      | next h => exact ih h

end Match

variable {α : Type}

-- =============================================================== sides

section On

variable {side : ℕ → Bool} {κ : Bool} {x : Symbol}

/-- The symbol is on a side. -/
def Symbol.on (side : ℕ → Bool) (κ : Bool) (x : Symbol) : Bool :=
  side x.id == κ

theorem Symbol.on_eq_true : x.on side κ = true ↔ side x.id = κ :=
  beq_iff_eq

theorem Symbol.on_not_eq_false :
    x.on side (!κ) = false ↔ side x.id = κ := by
  unfold Symbol.on
  cases side x.id <;> cases κ <;> decide

/-- What is not on the one side is on the other. -/
theorem Symbol.on_not_eq_true :
    x.on side (!κ) = true ↔ side x.id ≠ κ := by
  unfold Symbol.on
  cases side x.id <;> cases κ <;> decide

theorem Symbol.on_eq_false : x.on side κ = false ↔ side x.id ≠ κ :=
  beq_eq_false_iff_ne

end On

namespace Tableau

variable {side : ℕ → Bool} {κ : Bool} {S T : Set Symbol}
  {t₀ u₀ t u : Tableau α} {r d : Row α} {b s : Symbol}

-- ============================================================ one side

/-- Solving a row that two tableaux share: the same symbol is isolated in
both, or in neither. -/
theorem Tidy.release?_both [Scalar α] (ht : t.Tidy side S)
    (hu : u.Tidy side S) (hget : t.rows.get? b = u.rows.get? b)
    (hb : side b.id = κ) (s : Symbol) :
    (t.release? b s = none ∧ u.release? b s = none)
      ∨ ∃ d, t.release? b s = some (d, t.without b)
        ∧ u.release? b s = some (d, u.without b) ∧ side s.id = κ
        ∧ (t.without b).NonBasic S s ∧ (u.without b).NonBasic S s
        ∧ (d.Within fun x => (t.without b).NonBasic (S \ {s}) x
            ∧ side x.id = side s.id)
        ∧ d.Within fun x => (u.without b).NonBasic (S \ {s}) x
            ∧ side x.id = side s.id := by
  cases hr : t.rows.get? b with
  | none =>
      have hr' := hget.symm.trans hr
      refine Or.inl ⟨?_, ?_⟩
      · simp [Tableau.release?, hr]
      · simp [Tableau.release?, hr']
  | some r =>
      have hr' := hget.symm.trans hr
      cases hd : r.resolve? b s with
      | none =>
          refine Or.inl ⟨?_, ?_⟩
          · simp [Tableau.release?, hr, hd]
          · simp [Tableau.release?, hr', hd]
      | some d =>
          obtain ⟨hs, hdef⟩ := ht.resolve? hr hd
          obtain ⟨hs', hdef'⟩ := hu.resolve? hr' hd
          -- The symbol is that of the row, or one that the row mentions.
          have hside : side s.id = κ := by
            rcases (Row.resolve?_within hd).1 with rfl | hmem
            · exact hb
            · exact (ht.row hr s hmem).2.trans hb
          exact Or.inr ⟨d, release?_eq_some_iff.2 ⟨r, hr, hd, rfl⟩,
            release?_eq_some_iff.2 ⟨r, hr', hd, rfl⟩, hside, hs, hs', hdef,
            hdef'⟩

section Active

variable [Scalar α]

/-- What work on one side makes of a tableau whose other side is quiet:
the other side is kept. -/
structure Active (side : ℕ → Bool) (κ : Bool) (S : Set Symbol)
    (t₀ t : Tableau α) : Prop where
  tidy : t.Tidy side S
  quiet : t₀.Quiet (Symbol.on side !κ)
  kept : t₀.SameOn (Symbol.on side !κ) t
  within : ∀ {a}, t.auxiliary = some a → a.Within fun x => side x.id = κ

namespace Active

theorem mono (h : Active side κ S t₀ t) (hST : S ⊆ T) :
    Active side κ T t₀ t := { h with tidy := h.tidy.mono hST }

theorem quiet' (h : Active side κ S t₀ t) :
    t.Quiet (Symbol.on side !κ) := h.quiet.congr h.kept

/-- A row of the side mentions symbols of the side only. -/
theorem row (h : Active side κ S t₀ t) (hb : side b.id = κ)
    (hr : t.rows.get? b = some r) : r.Within fun x => side x.id = κ :=
  (h.tidy.row hr).mono fun _ hx => hx.2.trans hb

/-- The other rows do not mention a symbol of the side. -/
theorem not_mem (h : Active side κ S t₀ t) (hs : side s.id = κ)
    (hr : t.rows.get? b = some r) (hb : side b.id ≠ κ) : s ∉ r.symbols :=
  fun hmem => hb ((h.tidy.row hr s hmem).2.symm.trans hs)

theorem coefficient_eq (h : Active side κ S t₀ t) (hs : side s.id = κ)
    (hr : t.rows.get? b = some r) (hb : side b.id ≠ κ) :
    r.coefficient s = 0 :=
  Row.coefficient_of_not_mem (h.not_mem hs hr hb)

/-- Everything that waits is on the side. -/
theorem on_of_mem (h : Active side κ S t₀ t) {x : Symbol}
    (hx : x ∈ t.infeasible) : side x.id = κ := by
  by_contra hne
  have : x ∈ t.infeasible.filter (Symbol.on side !κ) :=
    List.mem_filter.2 ⟨hx, Symbol.on_not_eq_true.2 hne⟩
  rw [h.quiet'.infeasible] at this
  cases this

theorem without (h : Active side κ S t₀ t) (hb : side b.id = κ) :
    Active side κ S t₀ (t.without b) where
  tidy := h.tidy.without b
  quiet := h.quiet
  kept := h.kept.trans (.without_right (Symbol.on_not_eq_false.2 hb) t)
  within := h.within

/-- The auxiliary objective stays on the side. -/
private theorem within_substitute (h : Active side κ S t₀ t) (s : Symbol)
    (hd : d.Within fun x => side x.id = κ) {a : Row α}
    (ha : (t.substitute s d).auxiliary = some a) :
    a.Within fun x => side x.id = κ := by
  obtain ⟨a₀, ha₀, rfl⟩ := Option.map_eq_some_iff.1 ha
  exact Row.Within.substitute (fun x hx _ => h.within ha₀ x hx) fun _ => hd

theorem substitute (h : Active side κ S t₀ t) (hs : t.NonBasic S s)
    (hside : side s.id = κ)
    (hd : d.Within fun x =>
      t.NonBasic (S \ {s}) x ∧ side x.id = side s.id) :
    Active side κ S t₀ (t.substitute s d) := by
  have hdside : d.Within fun x => side x.id = κ :=
    hd.mono fun x hx => hx.2.trans hside
  refine ⟨(h.tidy.substitute hs.2 hd).mono fun x hx => hx.1, h.quiet,
    h.kept.trans ?_, h.within_substitute s hdside⟩
  exact .substitute_right (Symbol.on_not_eq_false.2 hside)
    (hdside.mono fun x hx => Symbol.on_not_eq_false.2 hx) h.quiet'
    fun hr hb => h.not_mem hside hr (Symbol.on_not_eq_true.1 hb)

theorem install (h : Active side κ S t₀ t) (hs : t.NonBasic S s)
    (hside : side s.id = κ)
    (hd : d.Within fun x =>
      t.NonBasic (S \ {s}) x ∧ side x.id = side s.id) :
    Active side κ S t₀ (t.install s d) := by
  have hdside : d.Within fun x => side x.id = κ :=
    hd.mono fun x hx => hx.2.trans hside
  refine ⟨h.tidy.install hs hd, h.quiet, h.kept.trans ?_,
    h.within_substitute s hdside⟩
  exact .install_right (Symbol.on_not_eq_false.2 hside)
    (hdside.mono fun x hx => Symbol.on_not_eq_false.2 hx) h.quiet'
    fun hr hb => h.not_mem hside hr (Symbol.on_not_eq_true.1 hb)

end Active

/-- Two tableaux that are worked on abreast: they are the same on one side,
and each keeps the other side that it had at first. -/
structure Abreast (side : ℕ → Bool) (κ : Bool) (S : Set Symbol)
    (t₀ u₀ t u : Tableau α) : Prop where
  left : Active side κ S t₀ t
  right : Active side κ S u₀ u
  same : t.SameOn (Symbol.on side κ) u
  auxiliary : t.auxiliary = u.auxiliary

end Active

namespace Abreast

variable [Scalar α]

theorem mono (h : Abreast side κ S t₀ u₀ t u) (hST : S ⊆ T) :
    Abreast side κ T t₀ u₀ t u :=
  { h with left := h.left.mono hST, right := h.right.mono hST }

theorem get?_eq (h : Abreast side κ S t₀ u₀ t u) (hb : side b.id = κ) :
    t.rows.get? b = u.rows.get? b :=
  h.same.rows.get?_eq (Symbol.on_eq_true.2 hb)

theorem without (h : Abreast side κ S t₀ u₀ t u) (hb : side b.id = κ) :
    Abreast side κ S t₀ u₀ (t.without b) (u.without b) where
  left := h.left.without hb
  right := h.right.without hb
  same := h.same.without b
  auxiliary := h.auxiliary

-- ============================================================ pivoting

/-- Solving a row of the side, on both sides. -/
theorem release? (h : Abreast side κ S t₀ u₀ t u) (hb : side b.id = κ)
    (s : Symbol) :
    (t.release? b s = none ∧ u.release? b s = none)
      ∨ ∃ d, t.release? b s = some (d, t.without b)
        ∧ u.release? b s = some (d, u.without b) ∧ side s.id = κ
        ∧ (t.without b).NonBasic S s ∧ (u.without b).NonBasic S s
        ∧ (d.Within fun x => (t.without b).NonBasic (S \ {s}) x
            ∧ side x.id = side s.id)
        ∧ d.Within fun x => (u.without b).NonBasic (S \ {s}) x
            ∧ side x.id = side s.id :=
  h.left.tidy.release?_both h.right.tidy (h.get?_eq hb) hb s

theorem substitute (h : Abreast side κ S t₀ u₀ t u)
    (hside : side s.id = κ) (hs : t.NonBasic S s) (hs' : u.NonBasic S s)
    (hd : d.Within fun x =>
      t.NonBasic (S \ {s}) x ∧ side x.id = side s.id)
    (hd' : d.Within fun x =>
      u.NonBasic (S \ {s}) x ∧ side x.id = side s.id) :
    Abreast side κ S t₀ u₀ (t.substitute s d) (u.substitute s d) where
  left := h.left.substitute hs hside hd
  right := h.right.substitute hs' hside hd'
  same := h.same.substitute (Symbol.on_eq_true.2 hside) d
  auxiliary := congrArg (Option.map _) h.auxiliary

theorem install (h : Abreast side κ S t₀ u₀ t u)
    (hside : side s.id = κ) (hs : t.NonBasic S s) (hs' : u.NonBasic S s)
    (hd : d.Within fun x =>
      t.NonBasic (S \ {s}) x ∧ side x.id = side s.id)
    (hd' : d.Within fun x =>
      u.NonBasic (S \ {s}) x ∧ side x.id = side s.id) :
    Abreast side κ S t₀ u₀ (t.install s d) (u.install s d) where
  left := h.left.install hs hside hd
  right := h.right.install hs' hside hd'
  same := h.same.install (Symbol.on_eq_true.2 hside) d
  auxiliary := congrArg (Option.map _) h.auxiliary

/-- A pivot on a row of the side, on both sides. -/
theorem exchange? (h : Abreast side κ S t₀ u₀ t u) (hb : side b.id = κ)
    (s : Symbol) :
    (t.exchange? b s = none ∧ u.exchange? b s = none)
      ∨ ∃ t' u', t.exchange? b s = some t' ∧ u.exchange? b s = some u'
        ∧ Abreast side κ S t₀ u₀ t' u' := by
  unfold Tableau.exchange?
  rcases h.release? hb s with
    ⟨ht, hu⟩ | ⟨d, ht, hu, hside, hs, hs', hd, hd'⟩
  · rw [ht, hu]
    exact Or.inl ⟨rfl, rfl⟩
  · rw [ht, hu]
    exact Or.inr ⟨_, _, rfl, rfl, (h.without hb).install hside hs hs' hd hd'⟩

-- ============================================================= primal

section Primal

variable [LawfulZero α]

/-- The same row limits a symbol of the side. -/
theorem leaving?_eq (h : Abreast side κ S t₀ u₀ t u)
    (hs : side s.id = κ) : t.leaving? s = u.leaving? s := by
  have hnone : ∀ {t t₀ : Tableau α}, Active side κ S t₀ t → ∀ {b r},
      t.rows.get? b = some r → Symbol.on side κ b = false →
      (if b.isExternal then none
        else
          let c := r.coefficient s
          if c < 0 then some (b, -r.constant / c) else none) = none := by
    intro t t₀ h b r hr hb
    rw [h.coefficient_eq hs hr (Symbol.on_eq_false.1 hb)]
    simp only [if_neg LawfulZero.not_lt, ite_self]
  exact congrArg Scalar.leastRatio
    (h.same.rows.filterMap_eq _ (hnone h.left) (hnone h.right))

omit [LawfulZero α] in
/-- What may lower the main objective is on the side. -/
private theorem entering?_main (h : Abreast side κ S t₀ u₀ t u)
    (ht : t₀.objective.Idle (Symbol.on side !κ))
    (hu : u₀.objective.Idle (Symbol.on side !κ)) :
    entering? t.objective = entering? u.objective
      ∧ ∀ s, entering? t.objective = some s → side s.id = κ := by
  have ht' := Row.Idle.congr ht h.left.kept.objective
  have hu' := Row.Idle.congr hu h.right.kept.objective
  have hpass : ∀ {o : Row α}, o.Idle (Symbol.on side !κ) → ∀ {x k},
      o.cells.get? x = some k → Symbol.on side κ x = false →
      (!x.isDummy && decide (k < 0)) = false := by
    intro o ho x k hx hon
    cases hdummy : x.isDummy with
    | true => rfl
    | false =>
        have hx := ho x k hx
          (Symbol.on_not_eq_true.2 (Symbol.on_eq_false.1 hon)) hdummy
        simp [hx]
  refine ⟨congrArg (Option.map Prod.fst)
    (Table.SameOn.find?_eq h.same.objective _ (hpass ht') (hpass hu')), ?_⟩
  intro s hs
  obtain ⟨k, hcell, hdummy, hneg⟩ := cell_of_entering? hs
  by_contra hne
  have := hpass ht' hcell (Symbol.on_eq_false.2 hne)
  simp [hdummy, hneg] at this

omit [LawfulZero α] in
/-- The same symbol of the side enters. -/
private theorem entering? (h : Abreast side κ S t₀ u₀ t u) {goal : Goal}
    (hidle : goal = .main → t₀.objective.Idle (Symbol.on side !κ)
      ∧ u₀.objective.Idle (Symbol.on side !κ)) :
    (t.goalRow? goal).bind Tableau.entering?
        = (u.goalRow? goal).bind Tableau.entering?
      ∧ ∀ s, (t.goalRow? goal).bind Tableau.entering? = some s →
        side s.id = κ := by
  cases goal with
  | main => exact h.entering?_main (hidle rfl).1 (hidle rfl).2
  | auxiliary =>
      refine ⟨congrArg (Option.bind · _) h.auxiliary, fun s hs => ?_⟩
      obtain ⟨a, ha, hs⟩ := Option.bind_eq_some_iff.1 hs
      obtain ⟨k, hk, -⟩ := cell_of_entering? hs
      exact h.left.within ha s (Row.mem_symbols_iff.2 ⟨k, hk⟩)

theorem primalStep (h : Abreast side κ S t₀ u₀ t u) {goal : Goal}
    (hidle : goal = .main → t₀.objective.Idle (Symbol.on side !κ)
      ∧ u₀.objective.Idle (Symbol.on side !κ)) :
    (primalStep goal t).Match (Abreast side κ S t₀ u₀) (primalStep goal u)
    := by
  obtain ⟨heq, hon⟩ := h.entering? hidle
  unfold Tableau.primalStep
  rw [← heq]
  cases hs : (t.goalRow? goal).bind Tableau.entering? with
  | none => exact .stop h _
  | some s =>
      dsimp only
      rw [← h.leaving?_eq (hon s hs)]
      cases hb : t.leaving? s with
      | none => exact .stop h _
      | some b =>
          -- The row mentions the entering symbol and keeps to its side.
          obtain ⟨r, hr, hmem⟩ := row_of_leaving? hb
          have hside : side b.id = κ :=
            (h.left.tidy.row hr s hmem).2.symm.trans (hon s hs)
          dsimp only
          rcases h.exchange? hside s with ⟨ht, hu⟩ | ⟨t', u', ht, hu, h'⟩
          · rw [ht, hu]
            exact .stop h _
          · rw [ht, hu]
            exact .next h'

/-- Minimising on both sides. -/
theorem minimise (h : Abreast side κ S t₀ u₀ t u) (budget : ℕ)
    (goal : Goal)
    (hidle : goal = .main → t₀.objective.Idle (Symbol.on side !κ)
      ∧ u₀.objective.Idle (Symbol.on side !κ)) :
    (t.minimise budget goal).Match (Abreast side κ S t₀ u₀)
      (u.minimise budget goal) :=
  iterate_match (fun _ _ h => h.primalStep hidle) budget h

end Primal

-- =============================================================== dual

/-- The same symbols wait on both sides. -/
theorem infeasible_eq (h : Abreast side κ S t₀ u₀ t u) :
    t.infeasible = u.infeasible := by
  have hall : ∀ {t t₀ : Tableau α}, Active side κ S t₀ t →
      t.infeasible.filter (Symbol.on side κ) = t.infeasible :=
    fun h => List.filter_eq_self.2 fun x hx =>
      Symbol.on_eq_true.2 (h.on_of_mem hx)
  rw [← hall h.left, ← hall h.right, h.same.infeasible]

/-- The same symbol raises a row of the side at the least cost. -/
theorem dualEntering?_eq (h : Abreast side κ S t₀ u₀ t u)
    (hr : r.Within fun x => side x.id = κ) :
    t.dualEntering? r = u.dualEntering? r :=
  h.same.dualEntering?_eq fun x hx => Symbol.on_eq_true.2 (hr x hx)

/-- Taking the top of the stack on both sides. -/
private theorem withStack (h : Abreast side κ S t₀ u₀ t u)
    {rest : List Symbol} (ht : t.infeasible = b :: rest) :
    Abreast side κ S t₀ u₀ { t with infeasible := rest }
      { u with infeasible := rest } := by
  have hu := h.infeasible_eq.symm.trans ht
  have hb : Symbol.on side (!κ) b = false := Symbol.on_not_eq_false.2
    (h.left.on_of_mem (ht ▸ List.mem_cons_self ..))
  have hpop : ∀ {t t₀ : Tableau α}, Active side κ S t₀ t →
      t.infeasible = b :: rest →
      Active side κ S t₀ { t with infeasible := rest } := by
    intro t t₀ h ht
    refine { h with tidy := h.tidy.withStack rest, kept := ?_ }
    refine { h.kept with infeasible := h.kept.infeasible.trans ?_ }
    rw [ht, List.filter_cons_of_neg (by rw [hb]; decide)]
  exact ⟨hpop h.left ht, hpop h.right hu,
    { h.same with infeasible := rfl }, h.auxiliary⟩

theorem dualStep (h : Abreast side κ S t₀ u₀ t u) :
    (dualStep t).Match (Abreast side κ S t₀ u₀) (dualStep u) := by
  unfold Tableau.dualStep
  rw [← h.infeasible_eq]
  cases hstack : t.infeasible with
  | nil => exact .stop h _
  | cons b rest =>
      have hb : side b.id = κ :=
        h.left.on_of_mem (hstack ▸ List.mem_cons_self ..)
      have hrest := h.withStack hstack
      dsimp only
      rw [← h.get?_eq hb]
      cases hr : t.rows.get? b with
      | none => exact .next hrest
      | some r =>
          dsimp only
          by_cases hneg : r.constant < 0
          · rw [if_pos hneg, if_pos hneg,
              ← hrest.dualEntering?_eq (h.left.row hb hr)]
            cases Tableau.dualEntering? { t with infeasible := rest } r with
            | none => exact .stop hrest _
            | some s =>
                dsimp only
                rcases hrest.exchange? hb s with
                  ⟨ht, hu⟩ | ⟨t', u', ht, hu, h'⟩
                · rw [ht, hu]
                  exact .stop hrest _
                · rw [ht, hu]
                  exact .next h'
          · rw [if_neg hneg, if_neg hneg]
            exact .next hrest

/-- Repairing on both sides. -/
theorem restore (h : Abreast side κ S t₀ u₀ t u) (budget : ℕ) :
    (t.restore budget).Match (Abreast side κ S t₀ u₀) (u.restore budget) :=
  iterate_match (fun _ _ h => h.dualStep) budget h

-- ========================================================== adjunction

/-- An artificial symbol of the side is made basic on both sides. -/
theorem withArtificial {art : Symbol} (h : Abreast side κ S t₀ u₀ t u)
    (hart : art ∉ S) (hside : side art.id = κ)
    (hr : r.Within fun x => t.NonBasic S x ∧ side x.id = side art.id)
    (hr' : r.Within fun x => u.NonBasic S x ∧ side x.id = side art.id) :
    Abreast side κ (insert art S) t₀ u₀ (t.withArtificial art r)
      (u.withArtificial art r) := by
  have hmade : ∀ {t t₀ : Tableau α}, Active side κ S t₀ t →
      (r.Within fun x => t.NonBasic S x ∧ side x.id = side art.id) →
      Active side κ (insert art S) t₀ (t.withArtificial art r) := by
    intro t t₀ h hr
    refine ⟨h.tidy.withArtificial hart hr, h.quiet,
      { h.kept with rows := h.kept.rows.trans ?_ }, fun ha => ?_⟩
    · exact .insert_right (Symbol.on_not_eq_false.2 hside) _ r
    · obtain rfl := Option.some.inj ha
      exact hr.mono fun x hx => hx.2.trans hside
  exact ⟨hmade h.left hr, hmade h.right hr',
    { h.same with rows := h.same.rows.insert art r }, rfl⟩

/-- Ending a search on both sides. -/
private theorem dropAuxiliary (h : Abreast side κ S t₀ u₀ t u) :
    Abreast side κ S t₀ u₀ { t with auxiliary := none }
      { u with auxiliary := none } := by
  have hdropped : ∀ {t t₀ : Tableau α}, Active side κ S t₀ t →
      Active side κ S t₀ { t with auxiliary := none } := fun h =>
    { h with
      tidy := h.tidy.dropAuxiliary
      kept := ⟨h.kept.rows, h.kept.objective, h.kept.infeasible⟩
      within := fun ha => by cases ha }
  exact ⟨hdropped h.left, hdropped h.right,
    ⟨h.same.rows, h.same.objective, h.same.infeasible⟩, rfl⟩

/-- Dropping a symbol of the side that is not basic, on both sides. -/
theorem purge (h : Abreast side κ S t₀ u₀ t u) (hside : side s.id = κ)
    (hs : t.rows.get? s = none) (haux : t.auxiliary = none) :
    Abreast side κ (S \ {s}) t₀ u₀ (t.purge s) (u.purge s) := by
  have hpurged : ∀ {t t₀ : Tableau α}, Active side κ S t₀ t →
      t.rows.get? s = none → t.auxiliary = none →
      Active side κ (S \ {s}) t₀ (t.purge s) := by
    intro t t₀ h hs haux
    have hoff := Symbol.on_not_eq_false.2 hside
    refine ⟨h.tidy.purge hs haux, h.quiet,
      ⟨h.kept.rows.trans (.map_right fun hr hb => ?_),
        h.kept.objective.trans (.discard_right hoff _),
        h.kept.infeasible⟩, h.within⟩
    exact Row.discard_of_not_mem
      (h.not_mem hside hr (Symbol.on_not_eq_true.1 hb))
  exact ⟨hpurged h.left hs haux,
    hpurged h.right ((h.get?_eq hside).symm.trans hs)
      (h.auxiliary.symm.trans haux),
    ⟨h.same.rows.map _, h.same.objective.discard s, h.same.infeasible⟩,
    h.auxiliary⟩

/-- Retiring an artificial symbol of the side, on both sides. -/
theorem retire {art : Symbol} (h : Abreast side κ S t₀ u₀ t u)
    (hside : side art.id = κ) (haux : t.auxiliary = none) :
    (t.retire art).result = (u.retire art).result
      ∧ ((t.retire art).result = .ok true →
        Abreast side κ (S \ {art}) t₀ u₀ (t.retire art).state
          (u.retire art).state) := by
  unfold Tableau.retire
  rw [← h.get?_eq hside]
  cases hr : t.rows.get? art with
  | none => exact ⟨rfl, fun _ => h.purge hside hr haux⟩
  | some r =>
      dsimp only
      split
      · -- A row that says nothing is dropped.
        have hdropped := h.without hside
        exact ⟨rfl, fun _ =>
          { hdropped with
            left := { hdropped.left with
              tidy := h.left.tidy.without_self hr }
            right := { hdropped.right with
              tidy := h.right.tidy.without_self
                ((h.get?_eq hside).symm.trans hr) } }⟩
      · cases hfirst : r.firstPivotable? with
        | none => exact ⟨rfl, fun hok => by cases hok⟩
        | some entering =>
            dsimp only
            rcases h.exchange? hside entering with
              ⟨ht, hu⟩ | ⟨t', u', ht, hu, h'⟩
            · rw [ht, hu]
              exact ⟨rfl, fun hok => by cases hok⟩
            · rw [ht, hu]
              have hne := (h.left.tidy.row hr entering
                (List.mem_of_find?_eq_some hfirst)).1.ne hr
              exact ⟨rfl, fun _ => h'.purge hside
                (get?_of_exchange? ht hne)
                (Tidy.auxiliary_eq_none (Tidy.auxiliary_of_exchange? ht)
                  haux)⟩

/-- Adjoining an equation of the side, on both sides. -/
theorem adjoin [LawfulZero α] {art : Symbol}
    (h : Abreast side κ S t₀ u₀ t u) (hart : art ∉ S)
    (hside : side art.id = κ)
    (hr : r.Within fun x => t.NonBasic S x ∧ side x.id = side art.id)
    (hr' : r.Within fun x => u.NonBasic S x ∧ side x.id = side art.id)
    (budget : ℕ) :
    (t.adjoin budget art r).Match (Abreast side κ S t₀ u₀)
      (u.adjoin budget art r) := by
  have hsearch : (t.searchWith budget art r).result
        = (u.searchWith budget art r).result
      ∧ ((t.searchWith budget art r).result = .ok true →
        Abreast side κ S t₀ u₀ (t.searchWith budget art r).state
          (u.searchWith budget art r).state) := by
    obtain ⟨hres, hmin⟩ := (h.withArtificial hart hside hr hr').minimise
      budget .auxiliary fun hgoal => by cases hgoal
    unfold searchWith Outcome.andThen
    rw [← hres]
    cases ((t.withArtificial art r).minimise budget .auxiliary).result with
    | error e => exact ⟨rfl, fun hok => by cases hok⟩
    | ok x =>
        dsimp only
        rw [← hmin.auxiliary]
        split
        · have hdropped := hmin.dropAuxiliary
          obtain ⟨hres, hlast⟩ := hdropped.retire hside rfl
          exact ⟨hres, fun hok => (hlast hok).mono
            fun x hx => hx.1.resolve_left hx.2⟩
        · exact ⟨rfl, fun hok => by cases hok⟩
  obtain ⟨hres, hstate⟩ := hsearch
  unfold Tableau.adjoin
  dsimp only
  rw [← hres]
  split
  case h_1 hok => exact ⟨hres, hstate hok⟩
  case h_2 => exact ⟨rfl, h⟩

-- ============================================================= removal

section Removal

variable [LawfulZero α]

/-- The same row is replaced by a marker of the side. -/
theorem markerLeaving?_eq (h : Abreast side κ S t₀ u₀ t u)
    (hs : side s.id = κ) : t.markerLeaving? s = u.markerLeaving? s := by
  have hnot : ∀ {t t₀ : Tableau α}, Active side κ S t₀ t → ∀ {b r},
      t.rows.get? b = some r → Symbol.on side κ b = false →
      r.coefficient s = 0 :=
    fun h _ _ hr hb => h.coefficient_eq hs hr (Symbol.on_eq_false.1 hb)
  have hfall : t.fallingRows s = u.fallingRows s := by
    refine h.same.rows.filterMap_eq _ (fun hr hb => ?_) fun hr hb => ?_
    · simp [hnot h.left hr hb, LawfulZero.not_lt]
    · simp [hnot h.right hr hb, LawfulZero.not_lt]
  have hrise : t.risingRows s = u.risingRows s := by
    refine h.same.rows.filterMap_eq _ (fun hr hb => ?_) fun hr hb => ?_
    · simp [hnot h.left hr hb, LawfulZero.not_lt]
    · simp [hnot h.right hr hb, LawfulZero.not_lt]
  have hext : t.externalRows s = u.externalRows s := by
    refine congrArg (List.map Prod.fst)
      (h.same.rows.filter_eq _ (fun hr hb => ?_) fun hr hb => ?_)
    · simp [hnot h.left hr hb, LawfulZero.beq]
    · simp [hnot h.right hr hb, LawfulZero.beq]
  unfold markerLeaving?
  rw [hfall, hrise, hext]

/-- Dropping a marker of the side, on both sides. -/
theorem dropMarker {marker : Symbol} (h : Abreast side κ S t₀ u₀ t u)
    (hside : side marker.id = κ) :
    (∃ f, t.dropMarker marker = .error f ∧ u.dropMarker marker = .error f)
      ∨ ∃ t' u', t.dropMarker marker = .ok t' ∧ u.dropMarker marker = .ok u'
        ∧ Abreast side κ S t₀ u₀ t' u' := by
  unfold Tableau.dropMarker
  rw [← h.same.rows.contains_eq (Symbol.on_eq_true.2 hside)]
  split
  · exact Or.inr ⟨_, _, rfl, rfl, h.without hside⟩
  · rw [← h.markerLeaving?_eq hside]
    cases hb : t.markerLeaving? marker with
    | none => exact Or.inl ⟨_, rfl, rfl⟩
    | some b =>
        obtain ⟨r, hr, hmem⟩ := row_of_markerLeaving? hb
        have hbside : side b.id = κ :=
          (h.left.tidy.row hr marker hmem).2.symm.trans hside
        dsimp only
        rcases h.release? hbside marker with
          ⟨ht, hu⟩ | ⟨d, ht, hu, -, hs, hs', hd, hd'⟩
        · rw [ht, hu]
          exact Or.inl ⟨_, rfl, rfl⟩
        · rw [ht, hu]
          exact Or.inr ⟨_, _, rfl, rfl,
            (h.without hbside).substitute hside hs hs' hd hd'⟩

end Removal

-- ============================================================= targets

/-- Moving a target of the side, on both sides. -/
theorem moveTarget [LawfulZero α] (h : Abreast side κ S t₀ u₀ t u)
    {f : Footprint} (hf : ∀ x, f.Mentions x → side x.id = κ) (delta : α) :
    Abreast side κ S t₀ u₀ (t.moveTarget f delta)
      (u.moveTarget f delta) := by
  have hmoved : ∀ {t t₀ : Tableau α}, Active side κ S t₀ t →
      Active side κ S t₀ (t.moveTarget f delta) := by
    intro t t₀ h
    have hoff : ∀ x, f.Mentions x → Symbol.on side (!κ) x = false :=
      fun x hx => Symbol.on_not_eq_false.2 (hf x hx)
    refine ⟨(h.tidy.moveTarget f delta).1, h.quiet, h.kept.trans ?_, ?_⟩
    · exact .moveTarget_right hoff (fun hr hb => h.not_mem
        (hf _ (Or.inl rfl)) hr (Symbol.on_not_eq_true.1 hb)) delta
    · rw [auxiliary_moveTarget]
      exact h.within
  refine ⟨hmoved h.left, hmoved h.right, h.same.moveTarget ?_ delta, ?_⟩
  · exact fun x hx => Symbol.on_eq_true.2 (hf x hx)
  · rw [auxiliary_moveTarget, auxiliary_moveTarget, h.auxiliary]

-- ============================================================ objective

/-- The objectives change by forms in symbols of the side. -/
private theorem withObjective (h : Abreast side κ S t₀ u₀ t u) {o o' : Row α}
    (ho : o.Within (t.NonBasic S)) (ho' : o'.Within (u.NonBasic S))
    (hkept : t.objective.SameOn (Symbol.on side !κ) o)
    (hkept' : u.objective.SameOn (Symbol.on side !κ) o')
    (hsame : o.SameOn (Symbol.on side κ) o') :
    Abreast side κ S t₀ u₀ { t with objective := o }
      { u with objective := o' } where
  left := { h.left with
    tidy := ⟨h.left.tidy.basic, h.left.tidy.row, ho, h.left.tidy.auxiliary⟩
    kept := { h.left.kept with
      objective := h.left.kept.objective.trans hkept } }
  right := { h.right with
    tidy := ⟨h.right.tidy.basic, h.right.tidy.row, ho',
      h.right.tidy.auxiliary⟩
    kept := { h.right.kept with
      objective := h.right.kept.objective.trans hkept' } }
  same := { h.same with objective := hsame }
  auxiliary := h.auxiliary

/-- The weight of a symbol of the side that is not basic. -/
theorem addCell (h : Abreast side κ S t₀ u₀ t u) (hside : side s.id = κ)
    (hs : t.NonBasic S s) (hs' : u.NonBasic S s) (k : α) :
    Abreast side κ S t₀ u₀
      { t with objective := t.objective.addCell s k }
      { u with objective := u.objective.addCell s k } :=
  h.withObjective (h.left.tidy.objective.addCell hs k)
    (h.right.tidy.objective.addCell hs' k)
    (.addCell_right (Symbol.on_not_eq_false.2 hside) _ k)
    (.addCell_right (Symbol.on_not_eq_false.2 hside) _ k)
    (h.same.objective.addCell s k)

/-- The weight of a symbol of the side, or of what defines it. -/
theorem addSymbol (h : Abreast side κ S t₀ u₀ t u) (hside : side s.id = κ)
    (hs : s ∈ S) (k : α) :
    Abreast side κ S t₀ u₀
      { t with objective := t.addSymbol t.objective s k }
      { u with objective := u.addSymbol u.objective s k } := by
  unfold Tableau.addSymbol
  rw [← h.get?_eq hside]
  cases hr : t.rows.get? s with
  | none =>
      exact h.addCell hside ⟨hs, hr⟩
        ⟨hs, (h.get?_eq hside).symm.trans hr⟩ k
  | some r =>
      have hr' := (h.get?_eq hside).symm.trans hr
      have hoff : r.Within fun x => Symbol.on side (!κ) x = false :=
        (h.left.row hside hr).mono fun x hx => Symbol.on_not_eq_false.2 hx
      exact h.withObjective
        (h.left.tidy.objective.addRow
          ((h.left.tidy.row hr).mono fun x hx => hx.1) k)
        (h.right.tidy.objective.addRow
          ((h.right.tidy.row hr').mono fun x hx => hx.1) k)
        (.addRow_right hoff _ k) (.addRow_right hoff _ k)
        (h.same.objective.addRow r k)

end Abreast

end Tableau

end LinearConstraints
