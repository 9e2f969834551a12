/-
Searches: what stays in place until the artificial symbol has left.

A search gives a new equation an artificial symbol and minimises it. The
equation is then there twice, as the row of that symbol and as the
objective, and while the symbol stays basic every pivot does the same to
both. The marker of the constraint is not chosen to enter, since it does
not lower the objective, and no other row mentions it; so its cell in the
two forms is what it was when the equation was posed. In particular the
row of the artificial symbol is not empty.

# Coming back

Once the artificial symbol has left, nothing of this need hold. Rounding
may leave coefficients in the objective where the exact ones cancel, more
pivots follow, and the symbol may enter again, into a row that has lost
everything else (`Search.Recurs`). Where a pivot cancels what it should
(`PivotsCancel`), the search is over with the pivot by which the symbol
leaves.

Main statements: `Ready.marked`, `Ready.recurs_of_overlooks` and
`Ready.not_recurs`.
-/
import Mathlib.Tactic.FieldSimp
import LinearConstraints.Proofs.Checked

namespace LinearConstraints

variable {α : Type} [Scalar α]

-- ============================================================== numbers

/-- What a pivot is to cancel it cancels: a coefficient disappears by the
multiple of its row that is to take it away, and what is left to the
symbol that has left the basis is not negative. -/
class PivotsCancel (α : Type) [Scalar α] : Prop where
  vanishes : ∀ a b : α, b < 0 →
    Scalar.nearZero (a + a * (-1 / b) * b) = true
  remains : ∀ b : α, b < 0 → ¬ 0 + (0 + -1) * (-1 / b) * b < 0

private theorem rat_cancels {b : Rat} (hb : b < 0) (a : Rat) :
    a * (-1 / b) * b = -a := by
  have hne : b ≠ 0 := ne_of_lt hb
  field_simp

instance : PivotsCancel Rat where
  vanishes := fun a b hb =>
    decide_eq_true (by rw [rat_cancels hb]; exact add_neg_cancel a)
  remains := fun b hb => by
    show ¬ (0 : Rat) + (0 + -1) * (-1 / b) * b < 0
    rw [rat_cancels hb]
    norm_num

instance : PivotsCancel TolerantRat where
  vanishes := fun a b hb => by
    have hzero : (a + a * (-1 / b) * b).toRat = 0 := by
      show a.toRat + a.toRat * (-1 / b.toRat) * b.toRat = 0
      rw [rat_cancels (show b.toRat < 0 from hb)]
      exact add_neg_cancel a.toRat
    refine decide_eq_true ?_
    rw [hzero]
    decide +kernel
  remains := PivotsCancel.remains (α := Rat)

namespace Tableau

variable {side : ℕ → Bool} {S : Set Symbol} {t t' : Tableau α}
  {goal : Goal} {budget : ℕ}

/-- Where no symbol lowers the objective the loop is over. -/
theorem primalStep_of_lowest {o : Row α} (ho : t.goalRow? goal = some o)
    (h : entering? o = none) : primalStep goal t = .stop t (.ok ()) :=
  primalStep_eq_iff.2 (.lowest (by rw [ho, Option.bind_some, h]))

/-- A row is solved for a symbol that lowers it, and put in the place of
that symbol in itself. Where a pivot cancels what it should, all that is
left is the symbol that it was solved against, and that does not lower
it. -/
theorem entering?_substitute_self [VisibleUnit α] [PivotsCancel α]
    {a d : Row α} {art s : Symbol} {c : α} (hart : art ∉ a.symbols)
    (hs : a.cells.get? s = some c) (hc : c < 0)
    (hd : a.resolve? art s = some d) :
    entering? (a.substitute s d) = none := by
  refine entering?_eq_none_iff.2 fun x k hk _ => ?_
  rw [Row.get?_substitute hs,
    Row.get?_resolve? VisibleUnit.neg_one hart hs hd] at hk
  unfold Row.coefficient at hk
  rw [Row.get?_discard] at hk
  by_cases hsx : s = x
  · rw [if_pos hsx, if_pos hsx] at hk
    cases hk
  · rw [if_neg hsx, if_neg hsx] at hk
    by_cases hx : art = x
    · rw [if_pos hx, Row.get?_eq_none_iff.2 (hx ▸ hart)] at hk
      dsimp only [Option.getD_none] at hk
      split at hk
      · cases hk
      · exact Option.some.inj hk ▸ PivotsCancel.remains c hc
    · rw [if_neg hx] at hk
      cases ha : a.cells.get? x with
      | none => rw [ha] at hk; cases hk
      | some l =>
          rw [ha] at hk
          dsimp only [Option.map_some, Option.getD_some] at hk
          split at hk
          · cases hk
          case isFalse hfar =>
            exact absurd (PivotsCancel.vanishes l c hc) hfar

-- ============================================================= searches

/-- A search for a solution of one more equation: the tableau that the
equation is added to, the artificial symbol and the row it is made basic
with, and the marker of the constraint that the equation is of. -/
structure Search (α : Type) where
  base : Tableau α
  art : Symbol
  row : Row α
  marker : Symbol

namespace Search

variable {q : Search α}

/-- Where the search starts. -/
def start (q : Search α) : Tableau α := q.base.withArtificial q.art q.row

/-- The tableaux that the search comes to. -/
inductive Comes (q : Search α) : Tableau α → Prop where
  | start : Comes q q.start
  | next {t t' : Tableau α} (before : Comes q t)
      (step : primalStep .auxiliary t = .next t') : Comes q t'

/-- Those that it comes to before the artificial symbol has left the
basis. -/
inductive Waits (q : Search α) : Tableau α → Prop where
  | start : Waits q q.start
  | next {t t' : Tableau α} (before : Waits q t)
      (step : primalStep .auxiliary t = .next t')
      (basic : t'.rows.contains q.art = true) : Waits q t'

/-- The artificial symbol enters the basis again after it has left. -/
def Recurs (q : Search α) : Prop :=
  ∃ t t', q.Comes t ∧ t.rows.get? q.art = none
    ∧ primalStep .auxiliary t = .next t'
    ∧ t'.rows.contains q.art = true

/-- The search brings the artificial symbol down to zero. -/
def reaches (q : Search α) (budget : ℕ) : Bool :=
  let o := q.start.minimise budget .auxiliary
  o.result.isOk && o.state.auxiliary.any fun a => Scalar.nearZero a.constant

/-- It does so, and the artificial symbol is left with a row that mentions
nothing. The equation is taken for true then, and nothing is kept of it. -/
def overlooks (q : Search α) (budget : ℕ) : Bool :=
  q.reaches budget
    && ((q.start.minimise budget .auxiliary).state.rows.get? q.art).any
      fun r => r.cells.isEmpty

/-- The row of the artificial symbol is the objective of the search, and
mentions the marker as it did at first; nothing else mentions it. -/
structure Marked (q : Search α) (t : Tableau α) : Prop where
  row : ∃ a, t.rows.get? q.art = some a ∧ t.auxiliary = some a
    ∧ a.cells.get? q.marker = q.row.cells.get? q.marker
  free : t.rows.get? q.marker = none
  apart : ∀ {b r}, t.rows.get? b = some r → q.marker ∈ r.symbols →
    b = q.art

/-- The equation is new to the tableau, as are the artificial symbol and
the marker, and the marker would not lower the objective. -/
structure Ready (side : ℕ → Bool) (S : Set Symbol) (q : Search α) : Prop
    where
  tidy : q.base.Tidy side S
  art : q.art ∉ S
  row : q.row.Within fun x =>
    q.base.NonBasic S x ∧ side x.id = side q.art.id
  marker : q.marker ∈ q.row.symbols
  idle : q.marker.isDummy = true ∨ ¬ q.row.coefficient q.marker < 0
  apart : ∀ {b r}, q.base.rows.get? b = some r → q.marker ∉ r.symbols

-- ============================================================== one step

/-- A pivot on the objective of the search is either the one by which the
artificial symbol leaves, or it leaves the marker in place. -/
theorem Marked.step (h : q.Marked t) (htidy : t.Tidy side S)
    (hidle : q.marker.isDummy = true ∨ ¬ q.row.coefficient q.marker < 0)
    (hstep : primalStep .auxiliary t = .next t') :
    q.Marked t' ∨ ∃ a s c, t.rows.get? q.art = some a
      ∧ t.auxiliary = some a ∧ a.cells.get? s = some c ∧ c < 0
      ∧ t.exchange? q.art s = some t' := by
  obtain ⟨o, s, c, b, ho, hs, hdummy, hneg, hex⟩ := pivot_of_primalStep hstep
  obtain ⟨a, ha, haux, hcell⟩ := h.row
  obtain rfl : a = o := Option.some.inj (haux.symm.trans ho)
  by_cases hb : b = q.art
  · subst hb
    exact Or.inr ⟨a, s, c, ha, haux, hs, hneg, hex⟩
  · left
    obtain ⟨r, d, hr, hd, rfl⟩ := exchange?_eq_some_iff.1 hex
    have hsm : q.marker ≠ s := by
      intro heq
      rcases hidle with hyes | hno
      · rw [heq, hdummy] at hyes
        cases hyes
      · unfold Row.coefficient at hno
        rw [← hcell, heq, hs] at hno
        exact hno hneg
    have hsart : s ≠ q.art :=
      (htidy.auxiliary haux s (Row.mem_symbols_iff.2 ⟨c, hs⟩)).ne ha
    have hmd : q.marker ∉ d.symbols := by
      intro hmem
      rcases ((Row.resolve?_within hd).2 _ hmem).1 with heq | hmem
      · exact Table.ne_of_get? hr h.free heq.symm
      · exact hb (h.apart hr hmem)
    refine ⟨⟨a.substitute s d, ?_, ?_, ?_⟩, ?_, fun hr' hmem => ?_⟩
    · rw [get?_rows_install, if_neg hsart, get?_rows_without, if_neg hb, ha]
      rfl
    · show t.auxiliary.map _ = _
      rw [haux]
      rfl
    · rw [Row.get?_substitute_of_not_mem hsm hmd, hcell]
    · rw [get?_rows_install, if_neg hsm.symm, get?_rows_without, h.free]
      split <;> rfl
    · rcases row_of_install hr' with ⟨-, rfl⟩ | ⟨r₀, hr₀, rfl⟩
      · exact absurd hmem hmd
      · obtain ⟨k, hk⟩ := Row.mem_symbols_iff.1 hmem
        rw [Row.get?_substitute_of_not_mem hsm hmd] at hk
        exact h.apart (get?_of_without hr₀).2 (Row.mem_symbols_iff.2 ⟨k, hk⟩)

-- ============================================================= the search

theorem Waits.comes (h : q.Waits t) : q.Comes t := by
  induction h with
  | start => exact .start
  | next _ step _ ih => exact .next ih step

/-- The search ends with a tableau that it comes to. -/
theorem comes_minimise (q : Search α) (budget : ℕ) :
    q.Comes (q.start.minimise budget .auxiliary).state := by
  exact iterate_state (fun _ _ ht hstep => .next ht hstep)
    (fun _ _ _ ht hstop => state_of_primalStep hstop ▸ ht) budget .start

/-- A search that brings the artificial symbol down to zero retires it,
and any other fails. -/
theorem searchWith_cases (q : Search α) (budget : ℕ) :
    q.reaches budget = true
        ∧ q.base.searchWith budget q.art q.row
          = ({ (q.start.minimise budget .auxiliary).state with
              auxiliary := none } : Tableau α).retire q.art
      ∨ q.reaches budget = false
        ∧ (q.base.searchWith budget q.art q.row).result ≠ .ok true := by
  unfold reaches start
  dsimp only
  generalize ho : q.base.searchWith budget q.art q.row = o
  cases searchWith_eq_iff.1 ho with
  | failed minimised =>
      rw [minimised]
      exact Or.inr ⟨rfl, fun h => by cases h⟩
  | above minimised unreached =>
      rw [minimised]
      exact Or.inr ⟨unreached, fun h => by cases h⟩
  | zero minimised reached =>
      rw [minimised]
      exact Or.inl ⟨reached, rfl⟩

/-- The artificial symbol is basic all the time, or it has left, or it has
come back. -/
theorem Comes.cases (h : q.Comes t) :
    q.Waits t ∨ t.rows.get? q.art = none ∨ q.Recurs := by
  induction h with
  | start => exact Or.inl .start
  | @next t t' before step ih =>
      by_cases hart : t'.rows.contains q.art = true
      · rcases ih with hwaits | hout | hrecurs
        · exact Or.inl (.next hwaits step hart)
        · exact Or.inr (Or.inr ⟨t, t', before, hout, step, hart⟩)
        · exact Or.inr (Or.inr hrecurs)
      · refine Or.inr (Or.inl ?_)
        exact Option.not_isSome_iff_eq_none.1 hart

namespace Ready

/-- The artificial symbol does not occur in its own row. -/
theorem tidy_start (h : q.Ready side S) :
    q.start.Tidy side (insert q.art S) :=
  h.tidy.withArtificial h.art h.row

theorem tidy_comes (h : q.Ready side S) (ht : q.Comes t) :
    t.Tidy side (insert q.art S) := by
  induction ht with
  | start => exact h.tidy_start
  | next _ step ih =>
      cases primalStep_eq_iff.1 step with
      | pivot _ _ _ exchange => exact ih.exchange? exchange

/-- The marker stays in place until the artificial symbol has left. -/
theorem marked (h : q.Ready side S) (ht : q.Waits t) : q.Marked t := by
  induction ht with
  | start =>
      have hget : ∀ x, q.start.rows.get? x
          = if q.art = x then some q.row else q.base.rows.get? x :=
        fun x => Table.get?_insert ..
      obtain ⟨hfree, -⟩ := h.row _ h.marker
      refine ⟨⟨q.row, ?_, rfl, rfl⟩, ?_, fun {b r} hr hmem => ?_⟩
      · rw [hget, if_pos rfl]
      · have hne : q.art ≠ q.marker := fun heq => h.art (heq ▸ hfree.1)
        rw [hget, if_neg hne]
        exact hfree.2
      · rw [hget] at hr
        split at hr
        case isTrue heq => exact heq.symm
        · exact absurd hmem (h.apart hr)
  | @next t t' before step basic ih =>
      rcases ih.step (h.tidy_comes before.comes) h.idle step with
        hmarked | ⟨a, s, c, ha, haux, hs, -, hex⟩
      · exact hmarked
      · have hne := ((h.tidy_comes before.comes).auxiliary haux s
          (Row.mem_symbols_iff.2 ⟨c, hs⟩)).ne ha
        unfold Table.contains at basic
        rw [get?_of_exchange? hex hne] at basic
        cases basic

/-- Until then a marker that may enter the basis is there for the artificial
symbol to be exchanged for. -/
theorem exists_firstPivotable? (h : q.Ready side S) (ht : q.Waits t)
    (hp : q.marker.isPivotable = true) {a : Row α}
    (ha : t.rows.get? q.art = some a) :
    ∃ x, a.firstPivotable? = some x := by
  obtain ⟨a', ha', -, hcell⟩ := (h.marked ht).row
  obtain rfl := Option.some.inj (ha.symm.trans ha')
  obtain ⟨k, hk⟩ := Row.mem_symbols_iff.1 h.marker
  rw [hk] at hcell
  exact Option.isSome_iff_exists.1 (List.find?_isSome.2
    ⟨q.marker, Row.mem_symbols_iff.2 ⟨k, hcell⟩, hp⟩)

/-- A search that ends with an empty row is one in which the artificial
symbol has come back. -/
theorem recurs_of_overlooks (h : q.Ready side S)
    (hempty : q.overlooks budget = true) : q.Recurs := by
  obtain ⟨-, hrow⟩ := Bool.and_eq_true_iff.1 hempty
  obtain ⟨r, hr, hcells⟩ := (Option.any_eq_true _ _).1 hrow
  rcases (q.comes_minimise budget).cases with hwaits | hout | hrecurs
  · obtain ⟨a, ha, -, hcell⟩ := (h.marked hwaits).row
    obtain rfl := Option.some.inj (hr.symm.trans ha)
    obtain ⟨k, hk⟩ := Row.mem_symbols_iff.1 h.marker
    rw [hk, Table.get?_eq_some_iff, List.isEmpty_iff.1 hcells] at hcell
    cases hcell
  · rw [hout] at hr
    cases hr
  · exact hrecurs

/-- Where pivots cancel what they should, the search is over once the
artificial symbol has left. -/
theorem not_recurs [VisibleUnit α] [PivotsCancel α]
    (h : q.Ready side S) : ¬ q.Recurs := by
  have key : ∀ t, q.Comes t → q.Marked t
      ∨ ∃ a, t.auxiliary = some a ∧ entering? a = none := by
    intro t ht
    induction ht with
    | start => exact Or.inl (h.marked .start)
    | @next t t' before step ih =>
        rcases ih with hmarked | ⟨a, haux, hlow⟩
        · have htidy := h.tidy_comes before
          rcases hmarked.step htidy h.idle step with
            hnext | ⟨a, s, c, ha, haux, hs, hneg, hex⟩
          · exact Or.inl hnext
          · obtain ⟨r, d, hr, hd, rfl⟩ := exchange?_eq_some_iff.1 hex
            obtain rfl := Option.some.inj (ha.symm.trans hr)
            have hart : q.art ∉ a.symbols := fun hmem =>
              ((htidy.row ha _ hmem).1.ne ha) rfl
            refine Or.inr ⟨a.substitute s d, ?_,
              entering?_substitute_self hart hs hneg hd⟩
            show t.auxiliary.map _ = _
            rw [haux]
            rfl
        · rw [primalStep_of_lowest (show t.goalRow? .auxiliary = _ from haux)
            hlow] at step
          cases step
  intro hrecurs
  obtain ⟨t, t', hcomes, hout, hstep, -⟩ := hrecurs
  rcases key t hcomes with hmarked | ⟨a, haux, hlow⟩
  · obtain ⟨a, ha, -⟩ := hmarked.row
    rw [hout] at ha
    cases ha
  · rw [primalStep_of_lowest (show t.goalRow? .auxiliary = _ from haux)
      hlow] at hstep
    cases hstep

end Ready

end Search

end Tableau

namespace Solver

open Tableau (Search)

variable {s s' : Solver α} {c : Constraint α} {r : Row α} {f : Footprint}
  {arts : List Symbol} {d : Sides} {κ : Bool} {n : ℕ} {q : Search α}

-- ==================================================== posing an equation

/-- The second solver is the first, but that it may have made symbols,
bound variables and weighed errors. -/
structure Keeps (s s' : Solver α) : Prop where
  rows : s'.tableau.rows = s.tableau.rows
  registry : s'.registry = s.registry
  later : s.nextId ≤ s'.nextId

namespace Keeps

omit [Scalar α] in
theorem refl (s : Solver α) : Keeps s s := ⟨rfl, rfl, le_refl _⟩

omit [Scalar α] in
theorem fresh (h : Keeps s s') (k : Symbol.Kind) :
    Keeps s (s'.fresh k).2 :=
  ⟨h.rows, h.registry, h.later.trans (Nat.le_succ _)⟩

theorem penalise (h : Keeps s s') (x : Symbol) (w : α) :
    Keeps s (s'.penalise x w) := ⟨h.rows, h.registry, h.later⟩

theorem addTerm (h : Keeps s s') (r : Row α) (term : Term α) :
    Keeps s (Solver.addTerm (r, s') term).2 := by
  unfold Solver.addTerm
  split
  · exact h
  · unfold Solver.symbolOf
    dsimp only
    split
    · exact h
    · exact ⟨h.rows, h.registry, h.later.trans (Nat.le_succ _)⟩

end Keeps

theorem keeps_rowOf (s : Solver α) (e : Expression α) :
    Keeps s (s.rowOf e).2 := by
  have key : ∀ (terms : List (Term α)) (p : Row α × Solver α),
      Keeps s p.2 → Keeps s (terms.foldl addTerm p).2 := by
    intro terms
    induction terms with
    | nil => exact fun _ hp => hp
    | cons term terms ih => exact fun p hp => ih _ (hp.addTerm p.1 term)
  exact key e.terms _ (.refl s)

/-- Posing a constraint changes neither the rows nor the registry. -/
theorem keeps_equation (s : Solver α) (c : Constraint α) :
    Keeps s (s.equation c).2.2 := by
  have hrow := keeps_rowOf s c.expression
  have hclosed : ∀ k : α, Keeps s
      ((s.rowOf c.expression).2.closeInequality (s.rowOf c.expression).1 k
        c.strength).2.2 := by
    intro k
    unfold closeInequality
    by_cases hreq : c.strength.isRequired = true
    · simp only [if_pos hreq]
      exact hrow.fresh .slack
    · simp only [if_neg hreq]
      exact ((hrow.fresh .slack).fresh .error).penalise _ _
  have hequal : Keeps s
      ((s.rowOf c.expression).2.closeEquality (s.rowOf c.expression).1
        c.strength).2.2 := by
    unfold closeEquality
    by_cases hreq : c.strength.isRequired = true
    · simp only [if_pos hreq]
      exact hrow.fresh .dummy
    · simp only [if_neg hreq]
      exact (((hrow.fresh .error).fresh .error).penalise _ _).penalise _ _
  unfold equation
  cases c.relation with
  | lessOrEqual => exact hclosed 1
  | greaterOrEqual => exact hclosed (-1)
  | equal => exact hequal

/-- The kind of marker that a constraint gets. -/
def markerKind (c : Constraint α) : Symbol.Kind :=
  if c.relation = .equal then
    if c.strength.isRequired then .dummy else .error
  else .slack

/-- The marker is the first symbol that is made for the constraint once
its variables have theirs. -/
theorem marker_equation (s : Solver α) (c : Constraint α) :
    (s.equation c).2.1.marker
      = ⟨markerKind c, (s.rowOf c.expression).2.nextId⟩ := by
  unfold equation markerKind
  cases c.relation with
  | lessOrEqual | greaterOrEqual =>
      rw [if_neg (by decide)]
      unfold closeInequality
      dsimp only
      split <;> rfl
  | equal =>
      rw [if_pos rfl]
      unfold closeEquality
      dsimp only
      split <;> rfl

theorem le_marker_equation (s : Solver α) (c : Constraint α) :
    s.nextId ≤ (s.equation c).2.1.marker.id := by
  rw [marker_equation]
  exact (keeps_rowOf s c.expression).later

-- ======================================================== their searches

/-- The search by which an equation enters: none if it can be solved at
once or mentions dummies only. -/
def searchOf? (s : Solver α) (r : Row α) (f : Footprint) :
    Option (Search α) :=
  match pivotFor? r f with
  | some _ => none
  | none =>
      if r.onlyDummies then none
      else some ⟨s.tableau, (s.fresh .slack).1, r, f.marker⟩

/-- The search that adding a constraint begins. -/
def search? (s : Solver α) (c : Constraint α) : Option (Search α) :=
  if s.contains c then none
  else
    let (r, f, s) := s.equation c
    s.searchOf? r f

/-- The search that a command begins. -/
def searchFor? (s : Solver α) : Command α → Option (Search α)
  | .add c => s.search? c
  | .addEdit id v strength =>
      if s.isEdited v || strength.clip.isRequired then none
      else s.search? (EditConstraint.new id v strength).constraint
  | _ => none

/-- Whatever a command searches for is the equation of a constraint. -/
theorem exists_search? {c : Command α} (hq : s.searchFor? c = some q) :
    ∃ c, s.search? c = some q := by
  cases c with
  | add c => exact ⟨c, hq⟩
  | addEdit id v strength =>
      unfold searchFor? at hq
      dsimp only at hq
      split at hq
      · cases hq
      · exact ⟨_, hq⟩
  | remove | removeEdit | suggest | refresh | reset => cases hq

theorem searchOf?_of_search? (hq : s.search? c = some q) :
    (s.equation c).2.2.searchOf? (s.equation c).1 (s.equation c).2.1
      = some q := by
  unfold search? at hq
  split at hq
  · cases hq
  · exact hq

/-- What such a search is told of. -/
theorem eq_of_searchOf? (h : s.searchOf? r f = some q) :
    q = ⟨s.tableau, (s.fresh .slack).1, r, f.marker⟩
      ∧ pivotFor? r f = none := by
  unfold searchOf? at h
  split at h
  · cases h
  case h_2 hp =>
    split at h
    · cases h
    · exact ⟨(Option.some.inj h).symm, hp⟩

/-- A marker that might enter the basis at once is not passed over. -/
theorem coefficient_marker_not_neg (h : pivotFor? r f = none)
    (hp : f.marker.isPivotable = true) :
    ¬ r.coefficient f.marker < 0 := by
  intro hneg
  unfold pivotFor? at h
  rw [Option.or_eq_none_iff] at h
  have := List.find?_eq_none.1 h.2 f.marker (List.mem_cons_self ..)
  exact this (by simp [hp, hneg])

/-- An equation that has been posed is ready for its search, if the rows
do not mention its marker. -/
theorem Posed.ready (h : Posed d κ arts n r f s)
    (hnew : ∀ i, n ≤ i → d.ofSymbol i = κ) (hmem : f.marker ∈ r.symbols)
    (hkind : f.marker.isDummy = true ∨ f.marker.isPivotable = true)
    (hapart : ∀ {b r'}, s.tableau.rows.get? b = some r' →
      f.marker ∉ r'.symbols)
    (hq : s.searchOf? r f = some q) :
    q.Ready d.ofSymbol (s.given arts) := by
  obtain ⟨rfl, hp⟩ := eq_of_searchOf? hq
  have hside : d.ofSymbol (s.fresh .slack).1.id = κ :=
    hnew _ h.drafts.later
  exact {
    tidy := h.drafts.tidy.tableau
    art := fun hin => lt_irrefl _ hin.1
    row := h.drafts.row.mono fun x hx => ⟨hx.1, hx.2.trans hside.symm⟩
    marker := hmem
    idle := hkind.imp_right (coefficient_marker_not_neg hp)
    apart := hapart }

variable [VisibleUnit α]

theorem Tidy.ready_searchOf? (h : s.Tidy .whole arts)
    (hq : (s.equation c).2.2.searchOf? (s.equation c).1
      (s.equation c).2.1 = some q) :
    q.Ready (fun _ => true) ((s.equation c).2.2.given arts) := by
  have hposed := h.equation (κ := true) (c := c) (fun _ _ => rfl)
    ⟨rfl, fun _ _ => rfl⟩
  refine hposed.ready (fun _ _ => rfl) (h.marker_mem_equation c) ?_ ?_ hq
  · rw [marker_equation]
    unfold markerKind
    split
    · split
      · exact Or.inl rfl
      · exact Or.inr rfl
    · exact Or.inr rfl
  · -- The rows are as old as the solver, and the marker is not.
    intro b r' hr' hmem
    rw [(keeps_equation s c).rows] at hr'
    exact absurd (h.tableau.row hr' _ hmem).1.1.1
      (le_marker_equation s c).not_gt

theorem Tidy.ready_search? (h : s.Tidy .whole arts)
    (hq : s.search? c = some q) : ∃ S, q.Ready (fun _ => true) S :=
  ⟨_, h.ready_searchOf? (searchOf?_of_search? hq)⟩

end Solver

end LinearConstraints
