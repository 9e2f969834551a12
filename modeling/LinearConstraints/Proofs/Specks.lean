/-
Specks: cells that count as zero and are stored all the same.

A coefficient that comes near zero is dropped where it is computed by
adding, and so it is in rows that are extended, negated or substituted
into. Solving a row is the exception: it scales all coefficients by one
factor and drops none. If the coefficient that the row is solved by is
more than 10^8 times another, that other one is left near zero, as a
speck. It stays in the row until something is added to it, takes part in
pivots, and comes to weight if its symbol takes a large value.

So a speck in a row has always been left by a solve, and is as that solve
has left it. The objective, which is never solved, has none.

Main statements: `Tableau.SpecksIn` and what keeps it; `Tracked.install`,
the one operation that leaves specks; `tracked_perform`, one command;
`Recorded.pruned_iff`, every run; and `looseLever_not_pruned`.
-/
import LinearConstraints.Proofs.Solves

namespace LinearConstraints

variable {α : Type} [Scalar α]

-- =============================================================== rows

namespace Row

variable {r d : Row α} {S S' : Symbol → α → Prop} {s : Symbol}

/-- All specks of the row, cells that count as zero, are of some kind. -/
def SpecksIn (S : Symbol → α → Prop) (r : Row α) : Prop :=
  ∀ x k, r.cells.get? x = some k → Scalar.nearZero k = true → S x k

/-- No cell of the row counts as zero. -/
def Pruned (r : Row α) : Prop := r.SpecksIn fun _ _ => False

theorem pruned_ofConstant (k : α) : (ofConstant k).Pruned := by
  intro x c hc
  cases hc

theorem Pruned.specksIn (h : r.Pruned) : r.SpecksIn S :=
  fun x k hk hnear => absurd (h x k hk hnear) not_false

namespace SpecksIn

theorem mono (h : r.SpecksIn S) (hS : ∀ x k, S x k → S' x k) :
    r.SpecksIn S' :=
  fun x k hk hnear => hS x k (h x k hk hnear)

theorem shift (h : r.SpecksIn S) (k : α) : (r.shift k).SpecksIn S := h

/-- A sum that counts as zero has no cell. -/
theorem addCell (h : r.SpecksIn S) (s : Symbol) (k : α) :
    (r.addCell s k).SpecksIn S := by
  intro x c hc hnear
  rw [get?_addCell] at hc
  split at hc
  · split at hc
    · cases hc
    case isFalse hfar =>
      obtain rfl := Option.some.inj hc
      exact absurd hnear hfar
  · exact h x c hc hnear

theorem addRow (h : r.SpecksIn S) (d : Row α) (k : α) :
    (r.addRow d k).SpecksIn S := by
  intro x c hc hnear
  rw [get?_addRow] at hc
  split at hc
  · exact h x c hc hnear
  · split at hc
    · cases hc
    case isFalse hfar =>
      obtain rfl := Option.some.inj hc
      exact absurd hnear hfar

theorem discard (h : r.SpecksIn S) (s : Symbol) :
    (r.discard s).SpecksIn S := by
  intro x c hc
  rw [get?_discard] at hc
  split at hc
  · cases hc
  · exact h x c hc

/-- Specks of the definition do not get into the row. -/
theorem substitute (h : r.SpecksIn S) (s : Symbol) (d : Row α) :
    (r.substitute s d).SpecksIn S := by
  unfold Row.substitute
  split
  · exact h
  · exact (h.discard s).addRow d _

end SpecksIn

end Row

-- ============================================================ tableaux

namespace Tableau

variable {t t' : Tableau α} {S S' : Symbol → α → Prop} {r d : Row α}
  {x : Symbol}

/-- All specks of the rows are of some kind, and the objective has none. -/
structure SpecksIn (S : Symbol → α → Prop) (t : Tableau α) : Prop where
  rows : ∀ {b r}, t.rows.get? b = some r → r.SpecksIn S
  objective : t.objective.Pruned

/-- No cell of a row or of the objective counts as zero. -/
def Pruned (t : Tableau α) : Prop := t.SpecksIn fun _ _ => False

namespace SpecksIn

theorem empty : (Tableau.empty : Tableau α).SpecksIn S :=
  ⟨fun {_ _} h => (by cases h), Row.pruned_ofConstant 0⟩

theorem mono (h : t.SpecksIn S) (hS : ∀ x k, S x k → S' x k) :
    t.SpecksIn S' :=
  ⟨fun hr => (h.rows hr).mono hS, h.objective⟩

theorem without (h : t.SpecksIn S) (b : Symbol) :
    (t.without b).SpecksIn S :=
  ⟨fun hr => h.rows (get?_of_without hr).2, h.objective⟩

theorem substitute (h : t.SpecksIn S) (x : Symbol) (d : Row α) :
    (t.substitute x d).SpecksIn S := by
  refine ⟨fun hr => ?_, Row.SpecksIn.substitute h.objective x d⟩
  obtain ⟨r₀, hr₀, rfl⟩ := row_of_substitute hr
  exact (h.rows hr₀).substitute x d

theorem install (h : t.SpecksIn S) (hd : d.SpecksIn S) (x : Symbol) :
    (t.install x d).SpecksIn S := by
  refine ⟨fun hr => ?_, Row.SpecksIn.substitute h.objective x d⟩
  rcases row_of_install hr with ⟨-, rfl⟩ | ⟨r₀, hr₀, rfl⟩
  · exact hd
  · exact (h.rows hr₀).substitute x d

/-- A new or changed row, whatever becomes of the stack and of a search. -/
theorem insert (h : t.SpecksIn S) (hr : r.SpecksIn S) (b : Symbol)
    (stack : List Symbol) (aux : Option (Row α)) :
    ({ t with
      rows := t.rows.insert b r
      infeasible := stack
      auxiliary := aux } : Tableau α).SpecksIn S := by
  refine ⟨fun {b' r'} hr' => ?_, h.objective⟩
  rw [Table.get?_insert] at hr'
  split at hr'
  · exact Option.some.inj hr' ▸ hr
  · exact h.rows hr'

theorem purge (h : t.SpecksIn S) (x : Symbol) :
    (t.purge x).SpecksIn S := by
  refine ⟨fun {b r} hr => ?_, Row.SpecksIn.discard h.objective x⟩
  unfold Tableau.purge at hr
  rw [Table.get?_map] at hr
  obtain ⟨r', hr', rfl⟩ := Option.map_eq_some_iff.1 hr
  exact (h.rows hr').discard x

/-- Moving a target moves constants only. -/
theorem moveTarget (h : t.SpecksIn S) (f : Footprint) (k : α) :
    (t.moveTarget f k).SpecksIn S := by
  generalize ht' : t.moveTarget f k = t'
  cases moveTarget_eq_iff.1 ht' with
  | marker row => exact h.insert ((h.rows row).shift _) _ _ _
  | companion _ _ basic => exact h.insert ((h.rows basic).shift _) _ _ _
  | column =>
      refine ⟨fun {b r} hr => ?_, h.objective⟩
      unfold Tableau.shiftColumn at hr
      rw [Table.get?_map] at hr
      obtain ⟨r', hr', rfl⟩ := Option.map_eq_some_iff.1 hr
      split
      · exact (h.rows hr').shift _
      · exact h.rows hr'

/-- The row that a marker replaces is solved, but only to be put into the
others. -/
theorem dropMarker (h : t.SpecksIn S) {m : Symbol}
    (hm : t.dropMarker m = .ok t') : t'.SpecksIn S := by
  cases dropMarker_eq_iff.1 hm with
  | basic => exact h.without m
  | released => exact (h.without _).substitute m _

end SpecksIn

/-- Adding a symbol or its definition to a form leaves no specks. -/
theorem pruned_addSymbol {form : Row α} (h : form.Pruned) (t : Tableau α)
    (x : Symbol) (k : α) : (t.addSymbol form x k).Pruned := by
  unfold addSymbol
  split
  · exact Row.SpecksIn.addRow h _ _
  · exact Row.SpecksIn.addCell h _ _

end Tableau

-- ========================================================== equations

namespace Solver

variable {s : Solver α} {S : Symbol → α → Prop} {c : Constraint α}

theorem specksIn_penalise (h : s.tableau.SpecksIn S) (x : Symbol) (w : α) :
    (s.penalise x w).tableau.SpecksIn S :=
  ⟨h.rows, Row.SpecksIn.addCell h.objective x w⟩

theorem specksIn_forgive (h : s.tableau.SpecksIn S) (g : Registration α) :
    (s.forgive g).tableau.SpecksIn S := by
  unfold forgive
  split
  · exact h
  · exact ⟨h.rows, Tableau.pruned_addSymbol h.objective _ _ _⟩

/-- The row of an expression is without specks, and the tableau stays. -/
theorem pruned_rowOf (s : Solver α) (e : Expression α) :
    (s.rowOf e).1.Pruned ∧ (s.rowOf e).2.tableau = s.tableau := by
  have hterm : ∀ (p : Row α × Solver α) (t : Term α), p.1.Pruned →
      (addTerm p t).1.Pruned ∧ (addTerm p t).2.tableau = p.2.tableau := by
    intro p t hp
    have hsymbol : (p.2.symbolOf t.var).2.tableau = p.2.tableau := by
      unfold symbolOf
      split <;> rfl
    unfold addTerm
    split
    · exact ⟨hp, rfl⟩
    · exact ⟨Tableau.pruned_addSymbol hp _ _ _, hsymbol⟩
  have key : ∀ (terms : List (Term α)) (p : Row α × Solver α),
      p.1.Pruned →
      (terms.foldl addTerm p).1.Pruned
        ∧ (terms.foldl addTerm p).2.tableau = p.2.tableau := by
    intro terms
    induction terms with
    | nil => exact fun p hp => ⟨hp, rfl⟩
    | cons t terms ih =>
        intro p hp
        obtain ⟨hrow, htableau⟩ := hterm p t hp
        obtain ⟨hrow', htableau'⟩ := ih _ hrow
        exact ⟨hrow', htableau'.trans htableau⟩
  exact key e.terms _ (Row.pruned_ofConstant _)

/-- Closing an inequality adds cells to the row and weights to the
objective. -/
theorem pruned_closeInequality {r : Row α} (hr : r.Pruned)
    (h : s.tableau.SpecksIn S) (sign : α) (strength : Strength α) :
    (s.closeInequality r sign strength).1.Pruned
      ∧ (s.closeInequality r sign strength).2.2.tableau.SpecksIn S := by
  unfold closeInequality
  by_cases hreq : strength.isRequired = true
  · simp only [if_pos hreq]
    exact ⟨Row.SpecksIn.addCell hr _ _, h⟩
  · simp only [if_neg hreq]
    exact ⟨Row.SpecksIn.addCell (Row.SpecksIn.addCell hr _ _) _ _,
      specksIn_penalise h _ _⟩

theorem pruned_closeEquality {r : Row α} (hr : r.Pruned)
    (h : s.tableau.SpecksIn S) (strength : Strength α) :
    (s.closeEquality r strength).1.Pruned
      ∧ (s.closeEquality r strength).2.2.tableau.SpecksIn S := by
  unfold closeEquality
  by_cases hreq : strength.isRequired = true
  · simp only [if_pos hreq]
    exact ⟨Row.SpecksIn.addCell hr _ _, h⟩
  · simp only [if_neg hreq]
    exact ⟨Row.SpecksIn.addCell (Row.SpecksIn.addCell hr _ _) _ _,
      specksIn_penalise (specksIn_penalise h _ _) _ _⟩

end Solver

-- ==================================================== tolerant numbers

namespace TolerantRat

/-- What counts as zero lies within the tolerance. -/
theorem nearZero_iff {k : TolerantRat} :
    Scalar.nearZero k = true ↔ |k.toRat| < tolerance := by
  have habs : k.toRat.abs = |k.toRat| := by
    unfold Rat.abs
    split
    case isTrue h => exact (abs_of_nonneg h).symm
    case isFalse h => exact (abs_of_neg (not_le.1 h)).symm
  rw [← habs]
  exact decide_eq_true_iff

/-- A number and its opposite count as zero together. -/
theorem nearZero_neg {k : TolerantRat} :
    Scalar.nearZero (-k) = true ↔ Scalar.nearZero k = true := by
  rw [nearZero_iff, nearZero_iff]
  show |-k.toRat| < tolerance ↔ _
  rw [abs_neg]

/-- What does not count as zero is not zero. -/
theorem toRat_ne_zero {k : TolerantRat} (h : Scalar.nearZero k ≠ true) :
    k.toRat ≠ 0 := by
  intro hzero
  refine h (nearZero_iff.2 ?_)
  rw [hzero, abs_zero]
  norm_num [tolerance]

/-- A scaled coefficient counts as zero if it was that small beside the
one that it is scaled by. -/
theorem nearZero_scaled_iff {a c : TolerantRat} (ha : a.toRat ≠ 0) :
    Scalar.nearZero (c * (-1 / a)) = true
      ↔ |c.toRat| < tolerance * |a.toRat| := by
  have hquot : (c * (-1 / a)).toRat = -(c.toRat / a.toRat) := by
    show c.toRat * (-1 / a.toRat) = _
    ring
  rw [nearZero_iff, hquot, abs_neg, abs_div,
    div_lt_iff₀ (abs_pos.2 ha)]

end TolerantRat

namespace Row

/-- Negating a row leaves no specks. -/
theorem Pruned.negated {r : Row TolerantRat} (h : r.Pruned) :
    r.negated.Pruned := by
  intro x k hk hnear
  rw [get?_negated] at hk
  obtain ⟨c, hc, rfl⟩ := Option.map_eq_some_iff.1 hk
  exact h x c hc (TolerantRat.nearZero_neg.1 hnear)

end Row

-- ============================================================== solves

namespace Solve

variable {q : Solve TolerantRat} {l l' : List (Solve TolerantRat)}
  {x : Symbol} {k : TolerantRat}

/-- The solve leaves the number in the cell of a symbol, as a speck: it
divides a coefficient by one that is so large beside it. -/
def Leaves (q : Solve TolerantRat) (x : Symbol) (k : TolerantRat) : Prop :=
  ∃ a c, q.equation.cells.get? q.symbol = some a
    ∧ q.equation.cells.get? x = some c
    ∧ q.symbol ≠ x
    ∧ k.toRat = -c.toRat / a.toRat
    ∧ c.toRat ≠ 0
    ∧ |c.toRat| < TolerantRat.tolerance * |a.toRat|

/-- The solve leaves a speck. -/
def Uneven (q : Solve TolerantRat) : Prop := ∃ x k, q.Leaves x k

/-- One of the solves leaves the speck. -/
def Left (l : List (Solve TolerantRat)) (x : Symbol) (k : TolerantRat) :
    Prop :=
  ∃ q ∈ l, q.Leaves x k

/-- What the tolerance asks of the larger coefficient is that it is not
zero. -/
private theorem ne_zero_of_abs_lt {a c : Rat}
    (h : |c| < TolerantRat.tolerance * |a|) : a ≠ 0 := by
  intro ha
  rw [ha, abs_zero, mul_zero] at h
  exact not_lt_of_ge (abs_nonneg c) h

/-- A speck is not zero. -/
theorem Leaves.ne_zero (h : q.Leaves x k) : k.toRat ≠ 0 := by
  obtain ⟨a, c, -, -, -, hk, hc, hlt⟩ := h
  rw [hk]
  exact div_ne_zero (neg_ne_zero.2 hc) (ne_zero_of_abs_lt hlt)

theorem Left.mono (h : Left l x k) (l' : List (Solve TolerantRat)) :
    Left (l ++ l') x k := by
  obtain ⟨q, hq, hleaves⟩ := h
  exact ⟨q, List.mem_append_left l' hq, hleaves⟩

/-- Where all specks have been left by solves no cell is zero. -/
theorem toRat_ne_zero_of_specksIn {r : Row TolerantRat}
    (h : r.SpecksIn (Left l)) (hk : r.cells.get? x = some k) :
    k.toRat ≠ 0 := by
  by_cases hnear : Scalar.nearZero k = true
  · obtain ⟨q, -, hleaves⟩ := h x k hk hnear
    exact hleaves.ne_zero
  · exact TolerantRat.toRat_ne_zero hnear

/-- A solved row has the specks that its solve leaves. -/
theorem leaves_iff {d : Row TolerantRat}
    (hne : ∀ {x k}, q.equation.cells.get? x = some k → k.toRat ≠ 0)
    (hd : q.equation.isolate? q.symbol = some d) :
    q.Leaves x k
      ↔ d.cells.get? x = some k ∧ Scalar.nearZero k = true := by
  obtain ⟨a, ha⟩ : ∃ a, q.equation.cells.get? q.symbol = some a := by
    refine Option.ne_none_iff_exists'.1 fun hnone => ?_
    rw [Row.isolate?_eq_none_iff.2 hnone] at hd
    cases hd
  have hcells := Row.get?_isolate? ha hd x
  constructor
  · rintro ⟨a', c, ha', hc, hx, hk, -, hlt⟩
    obtain rfl := Option.some.inj (ha.symm.trans ha')
    have hcell : c * (-1 / a) = k := by
      show c.toRat * (-1 / a.toRat) = k.toRat
      rw [hk]
      ring
    rw [if_neg hx, hc, Option.map_some, hcell] at hcells
    exact ⟨hcells, hcell ▸ (TolerantRat.nearZero_scaled_iff (hne ha)).2 hlt⟩
  · rintro ⟨hk, hnear⟩
    rw [hk] at hcells
    split at hcells
    · cases hcells
    case isFalse hx =>
      obtain ⟨c, hc, rfl⟩ := Option.map_eq_some_iff.1 hcells.symm
      refine ⟨a, c, ha, hc, hx, ?_, hne hc,
        (TolerantRat.nearZero_scaled_iff (hne ha)).1 hnear⟩
      show c.toRat * (-1 / a.toRat) = -c.toRat / a.toRat
      ring

/-- The solve has taken place: the solved row is stored in the tableau
after it, the specks of which have all been left by solves. -/
structure Sound (l : List (Solve TolerantRat)) (q : Solve TolerantRat) :
    Prop where
  stored : ∃ d, q.equation.isolate? q.symbol = some d
    ∧ q.after.rows.get? q.symbol = some d
  nonzero : ∀ {x k}, q.equation.cells.get? x = some k → k.toRat ≠ 0
  specks : q.after.SpecksIn (Left l)

theorem Sound.mono (h : q.Sound l) (l' : List (Solve TolerantRat)) :
    q.Sound (l ++ l') :=
  ⟨h.stored, h.nonzero, h.specks.mono fun _ _ hk => hk.mono l'⟩

/-- An uneven solve leaves a tableau with a speck. -/
theorem Sound.not_pruned (h : q.Sound l) (hq : q.Uneven) :
    ¬ q.after.Pruned := by
  intro hpruned
  obtain ⟨x, k, hleaves⟩ := hq
  obtain ⟨d, hd, hstored⟩ := h.stored
  obtain ⟨hk, hnear⟩ := (leaves_iff h.nonzero hd).1 hleaves
  exact hpruned.rows hstored x k hk hnear

end Solve

-- ============================================================ tracking

/-- All specks of the tableau have been left by the solves, and those have
taken place. -/
structure Tableau.Tracked (t : Tableau TolerantRat)
    (l : List (Solve TolerantRat)) : Prop where
  specks : t.SpecksIn (Solve.Left l)
  solves : ∀ q ∈ l, q.Sound l

namespace Tableau

open Solve (Left)

variable {t t' : Tableau TolerantRat} {l : List (Solve TolerantRat)}
  {r d : Row TolerantRat} {x : Symbol} {n : ℕ}

namespace Tracked

theorem of_specksIn (h : t.Tracked l) (h' : t'.SpecksIn (Left l)) :
    t'.Tracked l :=
  ⟨h', h.solves⟩

/-- Where nothing is solved the tableau stays tracked. -/
theorem idle (h : t.Tracked l) : t.Tracked (l ++ []) :=
  (List.append_nil l).symm ▸ h

theorem withStack (h : t.Tracked l) (stack : List Symbol) :
    ({ t with infeasible := stack } : Tableau TolerantRat).Tracked l :=
  h.of_specksIn ⟨h.specks.rows, h.specks.objective⟩

theorem withoutSearch (h : t.Tracked l) :
    ({ t with auxiliary := none } : Tableau TolerantRat).Tracked l :=
  h.of_specksIn ⟨h.specks.rows, h.specks.objective⟩

/-- An equation that is solved and stored leaves the specks of its solve,
and no others. -/
theorem install (h : t.Tracked l) (hr : r.SpecksIn (Left l))
    (hd : r.isolate? x = some d) :
    (t.install x d).Tracked (l ++ [⟨r, x, t.install x d⟩]) := by
  have hne : ∀ {y k}, r.cells.get? y = some k → k.toRat ≠ 0 :=
    Solve.toRat_ne_zero_of_specksIn hr
  have hspecks : d.SpecksIn (Left (l ++ [⟨r, x, t.install x d⟩])) := by
    intro y k hk hnear
    refine ⟨_, List.mem_append_right l (List.mem_singleton_self _), ?_⟩
    exact (Solve.leaves_iff hne hd).2 ⟨hk, hnear⟩
  have hafter : (t.install x d).SpecksIn
      (Left (l ++ [⟨r, x, t.install x d⟩])) :=
    (h.specks.mono fun _ _ hk => hk.mono _).install hspecks x
  refine ⟨hafter, fun q hq => ?_⟩
  rcases List.mem_append.1 hq with hq | hq
  · exact (h.solves q hq).mono _
  · obtain rfl := List.mem_singleton.1 hq
    refine ⟨⟨d, hd, ?_⟩, hne, hafter⟩
    rw [get?_rows_install, if_pos rfl]

theorem exchange? {b s : Symbol} (h : t.Tracked l)
    (hex : t.exchange? b s = some t') :
    t'.Tracked (l ++ t.exchangeSolves b s) := by
  obtain ⟨r, d, hr, hd, rfl, hsolves⟩ := exchangeSolves_of_exchange? hex
  rw [hsolves]
  exact (h.of_specksIn (h.specks.without b)).install
    ((h.specks.rows hr).addCell b (-1)) hd

theorem minimise (h : t.Tracked l) (n : ℕ) (goal : Goal) :
    (t.minimise n goal).state.Tracked (l ++ t.minimiseSolves n goal) := by
  refine track_loop (P := Tracked) (fun u u' l hu hstep => ?_)
    (fun u u' r l hu hstop => state_of_primalStep hstop ▸ hu) n t l h
  obtain ⟨b, s, hex, hsolves⟩ := primalStep_tracks hstep
  exact hsolves ▸ hu.exchange? hex

theorem restore (h : t.Tracked l) (n : ℕ) :
    (t.restore n).state.Tracked (l ++ t.restoreSolves n) := by
  refine track_loop (P := Tracked) (fun u u' l hu hstep => ?_)
    (fun u u' r l hu hstop => ?_) n t l h
  · obtain ⟨rest, ⟨rfl, hsolves⟩ | ⟨b, s, hex, hsolves⟩⟩ :=
      dualStep_tracks hstep
    · rw [hsolves]
      exact (hu.withStack rest).idle
    · rw [hsolves]
      exact (hu.withStack rest).exchange? hex
  · obtain ⟨stack, rfl⟩ := stack_of_dualStep hstop
    exact hu.withStack stack

/-- Retiring an artificial symbol solves its row, if it is basic and the
row mentions anything. -/
theorem retire (h : t.Tracked l) (art : Symbol) :
    (t.retire art).state.Tracked (l ++ t.retireSolves art) := by
  unfold retireSolves
  generalize ho : t.retire art = o
  cases retire_eq_iff.1 ho with
  | away row =>
      rw [row]
      exact (h.of_specksIn (h.specks.purge art)).idle
  | empty row cells =>
      rw [row]
      dsimp only
      rw [if_pos cells]
      exact (h.of_specksIn (h.specks.without art)).idle
  | refused row cells enters =>
      simp only [row, cells, enters]
      exact h.idle
  | absent row cells enters exchange =>
      simp only [row, cells, enters, exchangeSolves_of_none exchange]
      exact h.idle
  | pivot row cells enters exchange =>
      simp only [row, cells, enters]
      have ht' := h.exchange? exchange
      exact ht'.of_specksIn (ht'.specks.purge art)

/-- A search starts with a row that has no specks, and one that fails is
undone. -/
theorem adjoin (h : t.Tracked l) (hr : r.Pruned) (n : ℕ) (art : Symbol) :
    (t.adjoin n art r).state.Tracked (l ++ t.adjoinSolves n art r) := by
  unfold adjoinSolves
  split
  case h_1 hok =>
    have hstart : (t.withArtificial art r).Tracked l :=
      h.of_specksIn (h.specks.insert hr.specksIn ..)
    have hmin := hstart.minimise n .auxiliary
    have hend := hmin.withoutSearch.retire art
    have hq := Search.searchWith_cases ⟨t, art, r, art⟩ n
    rw [result_adjoin] at hok
    rcases hq with ⟨-, heq⟩ | ⟨-, hne⟩
    · rw [adjoin_eq_of_ok ((result_adjoin ..).trans hok)]
      change (t.searchWith n art r).state.Tracked _
      rw [show t.searchWith n art r = _ from heq, ← List.append_assoc]
      exact hend
    · exact absurd hok hne
  case h_2 hno =>
    rw [adjoin_state_of_ne_ok hno]
    exact h.idle

end Tracked

end Tableau

-- ============================================================ commands

namespace Solver

open Solve (Left)
open Tableau (Tracked)

variable {s : Solver TolerantRat} {l : List (Solve TolerantRat)}
  {c : Constraint TolerantRat} {r : Row TolerantRat} {f : Footprint}

/-- The equation of a constraint has no specks. -/
theorem tracked_equation (h : s.tableau.Tracked l)
    (c : Constraint TolerantRat) :
    (s.equation c).1.Pruned ∧ (s.equation c).2.2.tableau.Tracked l := by
  obtain ⟨hrow, htableau⟩ := pruned_rowOf s c.expression
  have hspecks : (s.rowOf c.expression).2.tableau.SpecksIn (Left l) :=
    htableau ▸ h.specks
  have hsign : ∀ r : Row TolerantRat, r.Pruned →
      (if r.constant < 0 then r.negated else r).Pruned := by
    intro r hr
    split
    · exact hr.negated
    · exact hr
  unfold equation
  cases c.relation with
  | lessOrEqual =>
      obtain ⟨hclosed, ht⟩ := pruned_closeInequality hrow hspecks 1 c.strength
      exact ⟨hsign _ hclosed, h.of_specksIn ht⟩
  | greaterOrEqual =>
      obtain ⟨hclosed, ht⟩ :=
        pruned_closeInequality hrow hspecks (-1) c.strength
      exact ⟨hsign _ hclosed, h.of_specksIn ht⟩
  | equal =>
      obtain ⟨hclosed, ht⟩ := pruned_closeEquality hrow hspecks c.strength
      exact ⟨hsign _ hclosed, h.of_specksIn ht⟩

theorem tracked_define (h : s.tableau.Tracked l) (hr : r.Pruned)
    (x : Symbol) :
    (s.define r x).state.tableau.Tracked (l ++ s.defineSolves r x) := by
  unfold define defineSolves
  cases hd : r.isolate? x with
  | none => exact h.idle
  | some d => exact h.install hr.specksIn hd

theorem tracked_enter (h : s.tableau.Tracked l) (hr : r.Pruned)
    (c : Constraint TolerantRat) (f : Footprint) (n : ℕ) :
    (s.enter n c r f).state.tableau.Tracked (l ++ s.enterSolves n r f) := by
  unfold enter enterSolves
  cases pivotFor? r f with
  | some x => exact tracked_define h hr x
  | none =>
      dsimp only
      split
      · split
        · exact tracked_define h hr f.marker
        · exact h.idle
      · -- Whether the search succeeds decides the answer, not the state.
        have hstate : ∀ o : Outcome (Solver TolerantRat) _ Bool,
            (o.andThen fun s feasible =>
              if feasible then .ok s ()
              else .error s (s.unsatisfiable c)).state = o.state := by
          intro o
          unfold Outcome.andThen
          split
          · dsimp only
            split <;> rfl
          · rfl
        rw [hstate]
        exact h.adjoin hr n _

theorem tracked_register (h : s.tableau.Tracked l)
    (c : Constraint TolerantRat) (n : ℕ) :
    (s.register n c).state.tableau.Tracked
      (l ++ s.registerSolves n c) := by
  unfold register registerSolves
  split
  · exact h.idle
  · obtain ⟨hrow, hposed⟩ := tracked_equation h c
    have henter := tracked_enter hposed hrow c (s.equation c).2.1 n
    dsimp only
    rw [← List.append_assoc]
    unfold Outcome.andThen
    cases ((s.equation c).2.2.enter n c (s.equation c).1
        (s.equation c).2.1).result with
    | error e => exact henter.idle
    | ok u =>
        have hsettled := henter.minimise n .main
        dsimp only
        split <;> exact hsettled

theorem tracked_add (h : s.tableau.Tracked l) (c : Constraint TolerantRat)
    (n : ℕ) :
    (s.add n c).state.tableau.Tracked (l ++ s.registerSolves n c) := by
  unfold add
  rw [Outcome.state_andThen_ok]
  exact tracked_register h c n

theorem tracked_remove (h : s.tableau.Tracked l)
    (c : Constraint TolerantRat) (n : ℕ) :
    (s.remove n c).state.tableau.Tracked (l ++ s.removeSolves n c) := by
  unfold remove removeSolves
  cases s.registry.get? c.id with
  | none => exact h.idle
  | some g =>
      have hforgiven := h.of_specksIn (specksIn_forgive
        (s := { s with registry := s.registry.erase c.id }) h.specks g)
      dsimp only
      cases hdrop : (({ s with registry := s.registry.erase c.id }
          : Solver TolerantRat).forgive g).tableau.dropMarker
            g.footprint.marker with
      | error _ => exact hforgiven.idle
      | ok t =>
          exact (hforgiven.of_specksIn
            (hforgiven.specks.dropMarker hdrop)).minimise n .main

theorem tracked_addEdit (h : s.tableau.Tracked l) (id : ℕ) (v : Variable)
    (strength : Strength TolerantRat) (n : ℕ) :
    (s.addEdit n id v strength).state.tableau.Tracked
      (l ++ s.addEditSolves n id v strength) := by
  unfold addEdit addEditSolves
  by_cases hedited : s.isEdited v = true
  · rw [if_pos hedited, if_pos hedited]
    exact h.idle
  · rw [if_neg hedited, if_neg hedited]
    by_cases hreq : strength.clip.isRequired = true
    · rw [if_pos hreq, if_pos hreq]
      exact h.idle
    · rw [if_neg hreq, if_neg hreq]
      have hreg := tracked_register h
        (EditConstraint.new id v strength).constraint n
      dsimp only
      unfold Outcome.andThen
      split <;> exact hreg

theorem tracked_removeEdit (h : s.tableau.Tracked l) (v : Variable)
    (n : ℕ) :
    (s.removeEdit n v).state.tableau.Tracked
      (l ++ s.removeEditSolves n v) := by
  unfold removeEdit removeEditSolves
  cases s.edits.get? v with
  | none => exact h.idle
  | some e =>
      have hremoved := tracked_remove h e.constraint.constraint n
      dsimp only
      unfold Outcome.andThen
      split <;> exact hremoved

theorem tracked_suggest (h : s.tableau.Tracked l) (v : Variable)
    (x : TolerantRat) (n : ℕ) :
    (s.suggest n v x).state.tableau.Tracked
      (l ++ s.suggestSolves n v x) := by
  unfold suggest suggestSolves
  cases s.edits.get? v with
  | none => exact h.idle
  | some e =>
      exact (h.of_specksIn (h.specks.moveTarget e.footprint
        (x - e.constraint.target))).restore n

/-- The specks after a command have been left by its solves or before. -/
theorem tracked_perform (h : s.tableau.Tracked l) {c : Command TolerantRat}
    (hc : c ≠ .reset) (n : ℕ) :
    (s.perform n c).state.tableau.Tracked (l ++ s.solves n c) := by
  cases c with
  | add c => exact tracked_add h c n
  | remove c => exact tracked_remove h c n
  | addEdit id v strength => exact tracked_addEdit h id v strength n
  | removeEdit v => exact tracked_removeEdit h v n
  | suggest v x => exact tracked_suggest h v x n
  | refresh => exact h.idle
  | reset => exact absurd rfl hc

/-- All specks that there are have been left by solves since the solver was
last empty. -/
theorem Recorded.tracked (h : Recorded s l) : s.tableau.Tracked l := by
  have hempty : (Solver.empty : Solver TolerantRat).tableau.Tracked [] :=
    ⟨.empty, fun q hq => absurd hq List.not_mem_nil⟩
  induction h with
  | empty => exact hempty
  | step n c _ hc ih => exact tracked_perform ih hc n
  | reset _ _ => exact hempty

/-- In no state does the objective hold a coefficient that counts as zero;
and a row holds one only as a solve has left it, which has divided a
coefficient by one more than 10^8 times as large. Each solve has stored
its row. So no cell has ever counted as zero, from the first solve on,
exactly if no solve was that uneven. -/
theorem Recorded.pruned_iff (h : Recorded s l) :
    s.tableau.objective.Pruned
    ∧ (∀ b r x k, s.tableau.rows.get? b = some r →
        r.cells.get? x = some k → Scalar.nearZero k = true →
        ∃ q ∈ l, q.Leaves x k)
    ∧ (∀ q ∈ l, ∃ d, q.equation.isolate? q.symbol = some d
        ∧ q.after.rows.get? q.symbol = some d)
    ∧ ((∀ q ∈ l, ¬ q.Uneven)
        ↔ s.tableau.Pruned ∧ ∀ q ∈ l, q.after.Pruned) := by
  have ht := h.tracked
  have hnone : (∀ q ∈ l, ¬ q.Uneven) → ∀ x k, Left l x k → False := by
    rintro heven x k ⟨q, hq, hleaves⟩
    exact heven q hq ⟨x, k, hleaves⟩
  refine ⟨ht.specks.objective, fun b r x k hr => ht.specks.rows hr x k,
    fun q hq => (ht.solves q hq).stored, fun heven => ⟨?_, ?_⟩,
    fun hpruned q hq hq' => ?_⟩
  · exact ht.specks.mono (hnone heven)
  · exact fun q hq => (ht.solves q hq).specks.mono (hnone heven)
  · exact (ht.solves q hq).not_pruned hq' (hpruned.2 q hq)

-- ============================================================= example

/-- The way that the short arm of a lever goes. -/
def shortArm : Variable := ⟨0, some "z"⟩

/-- The way that its long arm goes. -/
def longArm : Variable := ⟨1, some "y"⟩

/-- The short arm goes at most a `10^9`th of the way of the long one, which
is said with the factors `1000` and `10^-6`. -/
def ratio (α : Type) [Scalar α] : Constraint α :=
  .relate 0 ⟨[⟨shortArm, (1000 : ℕ)⟩], 0⟩ .lessOrEqual
    ⟨[⟨longArm, 1 / (1000000 : ℕ)⟩], 0⟩

/-- The short arm is to go five back, and the long one `5 * 10^9` on. -/
def lever (α : Type) [Scalar α] : List (Constraint α) :=
  [ratio α, .relate 1 (.ofVariable shortArm) .equal (.ofConstant (-(5 : ℕ))),
    .relate 2 (.ofVariable longArm) .equal (.ofConstant (5000000000 : ℕ))]

/-- The lever with its arms related, and nothing else. -/
def looseLever : Solver TolerantRat :=
  ((empty : Solver TolerantRat).perform 10 (.add (ratio TolerantRat))).state

/-- The lever with all that is asked, and the values copied. -/
def setLever (α : Type) [Scalar α] :
    Solver α × List (Except (Error α) Unit) :=
  empty.run 10 ((lever α).map .add ++ [.refresh])

/-- Relating the arms leaves a speck. -/
theorem looseLever_speck :
    ∃ b r x k, looseLever.tableau.rows.get? b = some r
      ∧ r.cells.get? x = some k ∧ Scalar.nearZero k = true := by
  have hspeck : ∃ e ∈ looseLever.tableau.rows.entries,
      ∃ c ∈ e.2.cells.entries, Scalar.nearZero c.2 = true := by
    decide +kernel
  obtain ⟨⟨b, r⟩, hr, ⟨x, k⟩, hk, hnear⟩ := hspeck
  exact ⟨b, r, x, k, Table.get?_eq_some_iff.2 hr,
    Table.get?_eq_some_iff.2 hk, hnear⟩

/-- The speck has been left by a solve of that one command, an uneven
one. -/
theorem looseLever_uneven :
    ∃ l, Recorded looseLever l ∧ ∃ q ∈ l, q.Uneven ∧ ¬ q.after.Pruned := by
  have hrecorded : Recorded looseLever
      ([] ++ empty.solves 10 (.add (ratio TolerantRat))) :=
    .step 10 _ .empty nofun
  obtain ⟨-, hleft, -, -⟩ := hrecorded.pruned_iff
  obtain ⟨b, r, x, k, hr, hk, hnear⟩ := looseLever_speck
  obtain ⟨q, hq, hleaves⟩ := hleft b r x k hr hk hnear
  exact ⟨_, hrecorded, q, hq, ⟨x, k, hleaves⟩,
    (hrecorded.tracked.solves q hq).not_pruned ⟨x, k, hleaves⟩⟩

/-- So there is a state with a cell that counts as zero. And it matters:
all that is asked of the lever is answered with success, but although the
short arm is to go to -5, and may, it is at 0. -/
theorem looseLever_not_pruned :
    Reachable (fun _ c => c = .add (ratio TolerantRat)) looseLever
    ∧ ¬ looseLever.tableau.Pruned
    ∧ (setLever TolerantRat).2.all Except.isOk = true
    ∧ (setLever TolerantRat).1.constraints.length = 3
    ∧ ((setLever TolerantRat).1.value shortArm).toRat = 0 := by
  refine ⟨?_, fun hpruned => ?_, by decide +kernel⟩
  · have hok : ((empty : Solver TolerantRat).perform 10
        (.add (ratio TolerantRat))).result.isOk = true := by decide +kernel
    refine .step 10 .empty rfl fun e he => ?_
    exact absurd ((Outcome.result_eq_ok hok).symm.trans he) nofun
  · obtain ⟨b, r, x, k, hr, hk, hnear⟩ := looseLever_speck
    exact hpruned.rows hr x k hk hnear

/-- Where nothing but zero counts as zero, it is at -5. -/
example : (setLever Rat).2.all Except.isOk = true
    ∧ (setLever Rat).1.value shortArm = -5 := by
  decide +kernel

end Solver

end LinearConstraints
