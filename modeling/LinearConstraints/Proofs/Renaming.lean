/-
Renaming: no operation on a tableau depends on the numbers of symbols.

A permutation of the numbers renames symbols, and with them everything
that is made of symbols: the keys of tables move, and what they hold, but
the order of the entries stays. Symbols are only ever told apart or asked
for their kind, so an operation on renamed data does what it does to the
data, renamed. Searches find the renamed symbol, loops take the renamed
steps and end with the same result.

# The form of the lemmas

Each lemma takes a renaming out of an operation, `f (ρ • x) = ρ • f x`,
and is named after the operation. `Below n` says that renamings of the
numbers from `n` on leave a thing as it is; an operation that renamings
can be taken out of keeps this (`Below.map`), so that no separate account
of the symbols that occur is needed.

Main statements: `Tableau.minimise_smul`, `Tableau.restore_smul`,
`Tableau.adjoin_smul`, `Tableau.dropMarker_smul` and
`Tableau.moveTarget_smul`; `Tableau.get?_of_below` and `Row.get?_of_below`:
what lies below a number has no entry at a symbol with that number.
-/
import Mathlib.Algebra.Group.Action.End
import Mathlib.Algebra.Group.Action.Option
import Mathlib.Algebra.Group.Action.Prod
import Mathlib.Data.Set.Finite.Basic
import Mathlib.GroupTheory.GroupAction.Support
import Mathlib.Order.Interval.Set.Basic
import LinearConstraints.Proofs.Exact
import LinearConstraints.Tableau.Dual
import LinearConstraints.Tableau.Feasibility
import LinearConstraints.Tableau.Removal
import LinearConstraints.Tableau.Target

namespace LinearConstraints

open Equiv (Perm)

-- ============================================================= symbols

namespace Symbol

/-- Permuting the numbers renames symbols and keeps their kinds. -/
instance instMulAction : MulAction (Perm ℕ) Symbol where
  smul ρ x := ⟨x.kind, ρ x.id⟩
  one_smul _ := rfl
  mul_smul _ _ _ := rfl

variable (ρ : Perm ℕ) (x : Symbol)

@[simp] theorem kind_smul : (ρ • x).kind = x.kind := rfl

@[simp] theorem id_smul : (ρ • x).id = ρ x.id := rfl

@[simp] theorem isExternal_smul : (ρ • x).isExternal = x.isExternal := rfl

@[simp] theorem isDummy_smul : (ρ • x).isDummy = x.isDummy := rfl

@[simp] theorem isError_smul : (ρ • x).isError = x.isError := rfl

@[simp] theorem isPivotable_smul :
    (ρ • x).isPivotable = x.isPivotable := rfl

end Symbol

/-- The first of a list of symbols that passes a test which does not look
at numbers. -/
theorem find?_smul {p : Symbol → Bool} (ρ : Perm ℕ)
    (hp : ∀ x, p (ρ • x) = p x) (l : List Symbol) :
    (l.map (ρ • ·)).find? p = (l.find? p).map (ρ • ·) := by
  rw [List.find?_map]
  congr 2
  exact funext hp

/-- The first candidate of least ratio is found under any names. -/
theorem Scalar.leastRatio_smul {α : Type} [Scalar α] (ρ : Perm ℕ)
    (l : List (Symbol × α)) :
    leastRatio (l.map fun c => (ρ • c.1, c.2))
      = (leastRatio l).map (ρ • ·) := by
  have key : ∀ (l : List (Symbol × α)) (best : Option (Symbol × α)),
      (l.map fun c => (ρ • c.1, c.2)).foldl better
          (best.map fun c => (ρ • c.1, c.2))
        = (l.foldl better best).map fun c => (ρ • c.1, c.2) := by
    intro l
    induction l with
    | nil => intro best; rfl
    | cons c l ih =>
        intro best
        rw [List.map_cons, List.foldl_cons, List.foldl_cons, ← ih]
        congr 1
        cases best with
        | none =>
            simp only [Option.map_none, better]
            split <;> rfl
        | some b =>
            simp only [Option.map_some, better]
            split <;> rfl
  unfold leastRatio
  rw [← Option.map_none (f := fun c : Symbol × α => (ρ • c.1, c.2)), key,
    Option.map_map, Option.map_map]
  rfl

-- ============================================================== tables

namespace Table

variable {β γ δ : Type}

/-- The table with its symbols renamed and its values mapped. -/
def rename (ρ : Perm ℕ) (g : β → γ) (t : Table Symbol β) :
    Table Symbol γ where
  entries := t.entries.map fun e => (ρ • e.1, g e.2)
  nodup := by
    rw [List.map_map]
    show (t.entries.map ((ρ • ·) ∘ Prod.fst)).Nodup
    rw [← List.map_map]
    exact t.nodup.map (MulAction.injective ρ)

variable (ρ : Perm ℕ) (g : β → γ) (t : Table Symbol β) (x : Symbol)

theorem keys_rename : (t.rename ρ g).keys = t.keys.map (ρ • ·) := by
  unfold keys rename
  rw [List.map_map, List.map_map]
  rfl

theorem isEmpty_rename : (t.rename ρ g).isEmpty = t.isEmpty :=
  List.isEmpty_map

theorem get?_rename :
    (t.rename ρ g).get? (ρ • x) = (t.get? x).map g := by
  have key : ∀ l : List (Symbol × β),
      lookup (ρ • x) (l.map fun e => (ρ • e.1, g e.2))
        = (lookup x l).map g := by
    intro l
    induction l with
    | nil => rfl
    | cons e l ih =>
        simp only [List.map_cons, lookup, smul_left_cancel_iff, ih]
        split <;> rfl
  exact key t.entries

theorem contains_rename :
    (t.rename ρ g).contains (ρ • x) = t.contains x := by
  unfold contains
  rw [get?_rename, Option.isSome_map]

theorem insert_rename (v : β) :
    (t.rename ρ g).insert (ρ • x) (g v) = (t.insert x v).rename ρ g := by
  have key : ∀ l : List (Symbol × β),
      write (ρ • x) (g v) (l.map fun e => (ρ • e.1, g e.2))
        = (write x v l).map fun e => (ρ • e.1, g e.2) := by
    intro l
    induction l with
    | nil => rfl
    | cons e l ih =>
        simp only [List.map_cons, write, smul_left_cancel_iff, ih]
        split <;> rfl
  exact Table.ext (key t.entries)

theorem erase_rename :
    (t.rename ρ g).erase (ρ • x) = (t.erase x).rename ρ g := by
  refine Table.ext ?_
  show drop _ (t.entries.map _) = (drop x t.entries).map _
  unfold drop
  rw [List.filter_map]
  congr 2
  funext e
  simp

/-- A function of the values that renamings can be taken out of. -/
theorem map_rename {h : Symbol → β → δ} {h' : Symbol → γ → δ}
    {k : δ → δ} (hh : ∀ x v, h' (ρ • x) (g v) = k (h x v)) :
    (t.rename ρ g).map h' = (t.map h).rename ρ k := by
  refine Table.ext ?_
  show (t.entries.map _).map _ = (t.entries.map _).map _
  rw [List.map_map, List.map_map]
  refine List.map_congr_left fun e _ => ?_
  exact Prod.ext rfl (hh e.1 e.2)

/-- A scan of the entries that does not look at numbers. -/
theorem filterMap_rename {f : Symbol × β → Option (Symbol × δ)}
    {f' : Symbol × γ → Option (Symbol × δ)}
    (hf : ∀ y v, f' (ρ • y, g v) = (f (y, v)).map fun c => (ρ • c.1, c.2)) :
    (t.rename ρ g).entries.filterMap f'
      = (t.entries.filterMap f).map fun c => (ρ • c.1, c.2) := by
  show (t.entries.map _).filterMap f' = _
  rw [List.filterMap_map, List.map_filterMap]
  refine List.filterMap_congr fun e _ => ?_
  exact hf e.1 e.2

/-- The symbols whose values pass a test that does not look at numbers. -/
theorem filter_rename (p : Symbol × β → Bool) (p' : Symbol × γ → Bool)
    (hp : ∀ y v, p' (ρ • y, g v) = p (y, v)) :
    ((t.rename ρ g).entries.filter p').map Prod.fst
      = ((t.entries.filter p).map Prod.fst).map (ρ • ·) := by
  show ((t.entries.map _).filter p').map _ = _
  rw [List.filter_map, List.map_map, List.map_map]
  have h : (p' ∘ fun e : Symbol × β => (ρ • e.1, g e.2)) = p :=
    funext fun e => hp e.1 e.2
  rw [h]
  rfl

theorem rename_one {g : β → β} (hg : ∀ v, g v = v) :
    t.rename 1 g = t := by
  refine Table.ext ?_
  show t.entries.map _ = t.entries
  conv_rhs => rw [← List.map_id t.entries]
  refine List.map_congr_left fun e _ => ?_
  exact Prod.ext (one_smul (Perm ℕ) e.1) (hg e.2)

theorem rename_mul {σ : Perm ℕ} {g' : β → δ} {h : δ → γ}
    (hg : ∀ v, g v = h (g' v)) :
    t.rename (ρ * σ) g = (t.rename σ g').rename ρ h := by
  refine Table.ext ?_
  show t.entries.map _ = (t.entries.map _).map _
  rw [List.map_map]
  refine List.map_congr_left fun e _ => ?_
  exact Prod.ext (mul_smul ρ σ e.1) (hg e.2)

end Table

-- =============================================================== rows

namespace Row

variable {α : Type}

/-- Renaming the symbols of a row. -/
instance instMulAction : MulAction (Perm ℕ) (Row α) where
  smul ρ r := ⟨r.constant, r.cells.rename ρ id⟩
  one_smul r := congrArg (Row.mk r.constant)
    (Table.rename_one r.cells fun _ => rfl)
  mul_smul ρ _ r := congrArg (Row.mk r.constant)
    (Table.rename_mul ρ id r.cells fun _ => rfl)

variable (ρ : Perm ℕ) (r d : Row α) (x : Symbol)

@[simp] theorem constant_smul : (ρ • r).constant = r.constant := rfl

theorem cells_smul : (ρ • r).cells = r.cells.rename ρ id := rfl

theorem get?_smul : (ρ • r).cells.get? (ρ • x) = r.cells.get? x := by
  rw [cells_smul, Table.get?_rename, Option.map_id_fun, id]

theorem symbols_smul : (ρ • r).symbols = r.symbols.map (ρ • ·) :=
  Table.keys_rename ρ id r.cells

theorem discard_smul : (ρ • r).discard (ρ • x) = ρ • r.discard x :=
  congrArg (Row.mk r.constant) (Table.erase_rename ρ id r.cells x)

@[simp] theorem onlyDummies_smul : (ρ • r).onlyDummies = r.onlyDummies := by
  unfold onlyDummies
  rw [symbols_smul, List.all_map]
  rfl

theorem firstPivotable?_smul :
    (ρ • r).firstPivotable? = r.firstPivotable?.map (ρ • ·) := by
  unfold firstPivotable?
  rw [symbols_smul]
  exact find?_smul ρ (fun _ => rfl) r.symbols

variable [Scalar α]

@[simp] theorem coefficient_smul :
    (ρ • r).coefficient (ρ • x) = r.coefficient x := by
  unfold coefficient
  rw [get?_smul]

theorem shift_smul (k : α) : (ρ • r).shift k = ρ • r.shift k := rfl

theorem addCell_smul (k : α) :
    (ρ • r).addCell (ρ • x) k = ρ • r.addCell x k := by
  unfold addCell
  dsimp only
  rw [coefficient_smul, cells_smul]
  split
  · exact congrArg (Row.mk r.constant) (Table.erase_rename ρ id r.cells x)
  · exact congrArg (Row.mk r.constant)
      (Table.insert_rename ρ id r.cells x _)

theorem addRow_smul (k : α) :
    (ρ • r).addRow (ρ • d) k = ρ • r.addRow d k := by
  have key : ∀ (l : List (Symbol × α)) (acc : Row α),
      (l.map fun e => (ρ • e.1, id e.2)).foldl
          (fun acc c => acc.addCell c.1 (c.2 * k)) (ρ • acc)
        = ρ • l.foldl (fun acc c => acc.addCell c.1 (c.2 * k)) acc := by
    intro l
    induction l with
    | nil => intro acc; rfl
    | cons e l ih =>
        intro acc
        rw [List.map_cons, List.foldl_cons, List.foldl_cons, ← ih]
        exact congrArg (List.foldl _ · _) (addCell_smul ρ acc e.1 _)
  exact key d.cells.entries (r.shift (d.constant * k))

theorem scaled_smul (k : α) : (ρ • r).scaled k = ρ • r.scaled k :=
  congrArg (Row.mk _) (Table.map_rename ρ id r.cells fun _ _ => rfl)

theorem negated_smul : (ρ • r).negated = ρ • r.negated :=
  congrArg (Row.mk _) (Table.map_rename ρ id r.cells fun _ _ => rfl)

theorem isolate?_smul :
    (ρ • r).isolate? (ρ • x) = (r.isolate? x).map (ρ • ·) := by
  unfold isolate?
  rw [get?_smul]
  cases r.cells.get? x with
  | none => rfl
  | some a =>
      dsimp only
      rw [discard_smul, scaled_smul]
      rfl

theorem resolve?_smul (y : Symbol) :
    (ρ • r).resolve? (ρ • x) (ρ • y) = (r.resolve? x y).map (ρ • ·) := by
  unfold resolve?
  rw [addCell_smul, isolate?_smul]

theorem substitute_smul :
    (ρ • r).substitute (ρ • x) (ρ • d) = ρ • r.substitute x d := by
  unfold substitute
  rw [get?_smul]
  cases r.cells.get? x with
  | none => rfl
  | some a =>
      dsimp only
      rw [discard_smul, addRow_smul]

end Row

-- ============================================================ outcomes

/-- Renaming the state that a step leads to. -/
instance Step.instSMul {σ ε : Type} [SMul (Perm ℕ) σ] :
    SMul (Perm ℕ) (Step σ ε) where
  smul ρ
    | .stop s r => .stop (ρ • s) r
    | .next s => .next (ρ • s)

/-- Renaming the state that an operation leaves behind. -/
instance Outcome.instSMul {σ ε τ : Type} [SMul (Perm ℕ) σ] :
    SMul (Perm ℕ) (Outcome σ ε τ) where
  smul ρ o := ⟨ρ • o.state, o.result⟩

section Outcomes

variable {σ ε τ υ : Type} [SMul (Perm ℕ) σ] (ρ : Perm ℕ)

@[simp] theorem Outcome.result_smul (o : Outcome σ ε τ) :
    (ρ • o).result = o.result := rfl

theorem Outcome.andThen_smul {f g : σ → τ → Outcome σ ε υ}
    (o : Outcome σ ε τ) (h : ∀ s r, f (ρ • s) r = ρ • g s r) :
    (ρ • o).andThen f = ρ • o.andThen g := by
  obtain ⟨s, result⟩ := o
  cases result with
  | ok r => exact h s r
  | error e => rfl

/-- A loop whose steps renamings can be taken out of. -/
theorem iterate_smul {step : σ → Step σ ε}
    (h : ∀ s, step (ρ • s) = ρ • step s) (spent : ε) (budget : ℕ) (s : σ) :
    iterate step spent budget (ρ • s)
      = ρ • iterate step spent budget s := by
  induction budget generalizing s with
  | zero => rfl
  | succ budget ih =>
      cases hs : step s with
      | stop s' r =>
          rw [iterate_of_stop hs]
          exact iterate_of_stop ((h s).trans (congrArg _ hs))
      | next s' =>
          rw [iterate_of_next hs, ← ih]
          exact iterate_of_next ((h s).trans (congrArg _ hs))

end Outcomes

-- ============================================================ tableaux

namespace Tableau

variable {α : Type}

/-- Renaming the symbols of a tableau. -/
instance instMulAction : MulAction (Perm ℕ) (Tableau α) where
  smul ρ t :=
    { rows := t.rows.rename ρ (ρ • ·)
      objective := ρ • t.objective
      infeasible := t.infeasible.map (ρ • ·)
      auxiliary := t.auxiliary.map (ρ • ·) }
  one_smul t := by
    obtain ⟨rows, objective, infeasible, auxiliary⟩ := t
    show Tableau.mk _ _ _ _ = _
    rw [Table.rename_one rows (one_smul _), one_smul]
    simp only [one_smul, List.map_id', Option.map_id']
  mul_smul ρ σ t := by
    obtain ⟨rows, objective, infeasible, auxiliary⟩ := t
    show Tableau.mk _ _ _ _ = Tableau.mk _ _ _ _
    rw [Table.rename_mul ρ _ rows (mul_smul ρ σ), mul_smul]
    simp only [mul_smul]
    congr 1
    · exact (List.map_map).symm
    · exact (Option.map_map ..).symm

variable (ρ : Perm ℕ) (t : Tableau α) (x y : Symbol) (r d : Row α)

theorem rows_smul : (ρ • t).rows = t.rows.rename ρ (ρ • ·) := rfl

@[simp] theorem objective_smul : (ρ • t).objective = ρ • t.objective := rfl

@[simp] theorem infeasible_smul :
    (ρ • t).infeasible = t.infeasible.map (ρ • ·) := rfl

@[simp] theorem auxiliary_smul :
    (ρ • t).auxiliary = t.auxiliary.map (ρ • ·) := rfl

@[simp] theorem get?_smul :
    (ρ • t).rows.get? (ρ • x) = (t.rows.get? x).map (ρ • ·) :=
  Table.get?_rename ρ (ρ • ·) t.rows x

variable [Scalar α]

@[simp] theorem isNegative_smul :
    isNegative (ρ • x) (ρ • r) = isNegative x r := rfl

@[simp] theorem solution_smul :
    (ρ • t).solution (ρ • x) = t.solution x := by
  unfold solution
  rw [get?_smul]
  cases t.rows.get? x <;> rfl

theorem addSymbol_smul (k : α) :
    (ρ • t).addSymbol (ρ • r) (ρ • x) k = ρ • t.addSymbol r x k := by
  unfold addSymbol
  rw [get?_smul]
  cases t.rows.get? x with
  | none => exact Row.addCell_smul ρ r x k
  | some d => exact Row.addRow_smul ρ r d k

-- ============================================================ pivoting

theorem substitute_smul :
    (ρ • t).substitute (ρ • x) (ρ • d) = ρ • t.substitute x d := by
  have hrows : (ρ • t).rows.map (fun _ r => r.substitute (ρ • x) (ρ • d))
      = (t.rows.map fun _ r => r.substitute x d).rename ρ (ρ • ·) :=
    Table.map_rename ρ (ρ • ·) t.rows
      fun _ r => Row.substitute_smul ρ r d x
  have hnegative := Table.filter_rename ρ (ρ • ·)
    (t.rows.map fun _ r => r.substitute x d)
    (fun e => isNegative e.1 e.2) (fun e => isNegative e.1 e.2)
    fun y r => isNegative_smul ρ y r
  have hauxiliary : ((ρ • t).auxiliary.map (·.substitute (ρ • x) (ρ • d)))
      = (t.auxiliary.map (·.substitute x d)).map (ρ • ·) := by
    rw [auxiliary_smul, Option.map_map, Option.map_map]
    congr 1
    exact funext fun r => Row.substitute_smul ρ r d x
  unfold substitute
  dsimp only
  rw [hrows, hnegative, hauxiliary, objective_smul, Row.substitute_smul,
    infeasible_smul, ← List.map_reverse, ← List.map_append]
  rfl

theorem install_smul :
    (ρ • t).install (ρ • x) (ρ • d) = ρ • t.install x d := by
  unfold install
  rw [substitute_smul]
  dsimp only [rows_smul]
  rw [Table.insert_rename]
  rfl

theorem release?_smul :
    (ρ • t).release? (ρ • x) (ρ • y) = (t.release? x y).map (ρ • ·) := by
  unfold release?
  rw [get?_smul]
  cases t.rows.get? x with
  | none => rfl
  | some r =>
      simp only [Option.map_some, Option.bind_eq_bind, Option.bind_some,
        Row.resolve?_smul]
      cases r.resolve? x y with
      | none => rfl
      | some d =>
          simp only [Option.map_some, Option.bind_some, rows_smul,
            Table.erase_rename]
          rfl

theorem exchange?_smul :
    (ρ • t).exchange? (ρ • x) (ρ • y) = (t.exchange? x y).map (ρ • ·) := by
  unfold exchange?
  rw [release?_smul]
  cases t.release? x y with
  | none => rfl
  | some p => exact congrArg some (install_smul ρ p.2 y p.1)

-- =============================================================== loops

theorem entering?_smul :
    entering? (ρ • r) = (entering? r).map (ρ • ·) := by
  unfold entering?
  show ((r.cells.entries.map fun e => (ρ • e.1, id e.2)).find? _).map _ = _
  rw [List.find?_map, Option.map_map, Option.map_map]
  rfl

theorem leaving?_smul :
    (ρ • t).leaving? (ρ • x) = (t.leaving? x).map (ρ • ·) := by
  unfold leaving?
  rw [← Scalar.leastRatio_smul]
  congr 1
  refine Table.filterMap_rename ρ (ρ • ·) t.rows fun y r => ?_
  simp only [Symbol.isExternal_smul, Row.coefficient_smul,
    Row.constant_smul]
  split
  · rfl
  · split <;> rfl

theorem primalStep_smul (goal : Goal) :
    primalStep goal (ρ • t) = ρ • primalStep goal t := by
  have hgoal : ((ρ • t).goalRow? goal).bind entering?
      = ((t.goalRow? goal).bind entering?).map (ρ • ·) := by
    cases goal with
    | main => exact entering?_smul ρ t.objective
    | auxiliary =>
        show (t.auxiliary.map (ρ • ·)).bind entering?
          = (t.auxiliary.bind entering?).map (ρ • ·)
        cases t.auxiliary with
        | none => rfl
        | some a => exact entering?_smul ρ a
  unfold primalStep
  rw [hgoal]
  cases (t.goalRow? goal).bind entering? with
  | none => rfl
  | some x =>
      simp only [Option.map_some, leaving?_smul]
      cases t.leaving? x with
      | none => rfl
      | some y =>
          simp only [Option.map_some, exchange?_smul]
          cases t.exchange? y x <;> rfl

theorem minimise_smul (budget : ℕ) (goal : Goal) :
    (ρ • t).minimise budget goal = ρ • t.minimise budget goal :=
  iterate_smul ρ (fun t => primalStep_smul ρ t goal) _ budget t

theorem dualEntering?_smul :
    (ρ • t).dualEntering? (ρ • r) = (t.dualEntering? r).map (ρ • ·) := by
  unfold dualEntering?
  rw [← Scalar.leastRatio_smul]
  congr 1
  refine Table.filterMap_rename ρ id r.cells fun y c => ?_
  simp only [Symbol.isDummy_smul, objective_smul, Row.coefficient_smul, id]
  split <;> rfl

/-- A step with a row on the stack, as a function of what is left. -/
private theorem dualStep_push (x : Symbol) :
    dualStep { t with infeasible := x :: t.infeasible }
      = match t.rows.get? x with
        | none => .next t
        | some r =>
            if r.constant < 0 then
              match t.dualEntering? r with
              | none => .stop t (.error .noDualEnteringSymbol)
              | some y =>
                  match t.exchange? x y with
                  | none => .stop t (.error .absentSymbol)
                  | some t' => .next t'
            else .next t := rfl

theorem dualStep_smul : dualStep (ρ • t) = ρ • dualStep t := by
  cases hi : t.infeasible with
  | nil =>
      unfold dualStep
      rw [infeasible_smul, hi]
      rfl
  | cons x rest =>
      obtain ⟨u, rfl⟩ : ∃ u : Tableau α,
          t = { u with infeasible := x :: u.infeasible } :=
        ⟨{ t with infeasible := rest }, by rw [← hi]⟩
      show dualStep { ρ • u with infeasible := ρ • x :: (ρ • u).infeasible } = _
      rw [dualStep_push, dualStep_push, get?_smul]
      cases u.rows.get? x with
      | none => rfl
      | some r =>
          simp only [Option.map_some, Row.constant_smul,
            dualEntering?_smul]
          split
          · cases u.dualEntering? r with
            | none => rfl
            | some y =>
                simp only [Option.map_some, exchange?_smul]
                cases u.exchange? x y <;> rfl
          · rfl

theorem restore_smul (budget : ℕ) :
    (ρ • t).restore budget = ρ • t.restore budget :=
  iterate_smul ρ (fun t => dualStep_smul ρ t) _ budget t

-- ========================================================== adjunction

omit [Scalar α] in
theorem purge_smul : (ρ • t).purge (ρ • x) = ρ • t.purge x := by
  unfold purge
  rw [objective_smul, Row.discard_smul, rows_smul,
    Table.map_rename ρ (ρ • ·) t.rows fun _ r => Row.discard_smul ρ r x]
  rfl

theorem retire_smul : (ρ • t).retire (ρ • x) = ρ • t.retire x := by
  unfold retire
  rw [get?_smul]
  cases t.rows.get? x with
  | none =>
      show Outcome.ok ((ρ • t).purge (ρ • x)) true = _
      rw [purge_smul]
      rfl
  | some r =>
      simp only [Option.map_some, Row.cells_smul, Table.isEmpty_rename,
        Row.firstPivotable?_smul]
      split
      · rw [rows_smul, Table.erase_rename]
        rfl
      · cases r.firstPivotable? with
        | none => rfl
        | some y =>
            simp only [Option.map_some, exchange?_smul]
            cases t.exchange? x y with
            | none => rfl
            | some u =>
                show Outcome.ok ((ρ • u).purge (ρ • x)) true = _
                rw [purge_smul]
                rfl

theorem searchWith_smul (budget : ℕ) :
    (ρ • t).searchWith budget (ρ • x) (ρ • r)
      = ρ • t.searchWith budget x r := by
  have hart : (ρ • t).withArtificial (ρ • x) (ρ • r)
      = ρ • t.withArtificial x r := by
    unfold withArtificial
    rw [rows_smul, Table.insert_rename]
    rfl
  unfold searchWith
  rw [hart, minimise_smul]
  refine Outcome.andThen_smul ρ _ fun u _ => ?_
  have hreached : ((ρ • u).auxiliary.any fun a => Scalar.nearZero a.constant)
      = u.auxiliary.any fun a => Scalar.nearZero a.constant := by
    rw [auxiliary_smul]
    cases u.auxiliary <;> rfl
  dsimp only
  rw [hreached]
  split
  · exact retire_smul ρ { u with auxiliary := none } x
  · rfl

theorem adjoin_smul (budget : ℕ) :
    (ρ • t).adjoin budget (ρ • x) (ρ • r) = ρ • t.adjoin budget x r := by
  unfold adjoin
  rw [searchWith_smul]
  dsimp only
  rw [Outcome.result_smul]
  split <;> rfl

-- ============================================================= removal

theorem markerLeaving?_smul :
    (ρ • t).markerLeaving? (ρ • x) = (t.markerLeaving? x).map (ρ • ·) := by
  have hfalling : (ρ • t).fallingRows (ρ • x)
      = (t.fallingRows x).map fun c => (ρ • c.1, c.2) := by
    refine Table.filterMap_rename ρ (ρ • ·) t.rows fun y r => ?_
    simp only [Symbol.isExternal_smul, Row.coefficient_smul,
      Row.constant_smul]
    split <;> rfl
  have hrising : (ρ • t).risingRows (ρ • x)
      = (t.risingRows x).map fun c => (ρ • c.1, c.2) := by
    refine Table.filterMap_rename ρ (ρ • ·) t.rows fun y r => ?_
    simp only [Symbol.isExternal_smul, Row.coefficient_smul,
      Row.constant_smul]
    split <;> rfl
  have hexternal : (ρ • t).externalRows (ρ • x)
      = (t.externalRows x).map (ρ • ·) := by
    refine Table.filter_rename ρ (ρ • ·) t.rows _ _ fun y r => ?_
    rw [Symbol.isExternal_smul, Row.coefficient_smul]
  unfold markerLeaving?
  rw [hfalling, hrising, hexternal, Scalar.leastRatio_smul,
    Scalar.leastRatio_smul, List.getLast?_map]
  cases Scalar.leastRatio (t.fallingRows x) with
  | some y => rfl
  | none => cases Scalar.leastRatio (t.risingRows x) <;> rfl

theorem dropMarker_smul :
    (ρ • t).dropMarker (ρ • x) = (t.dropMarker x).map (ρ • ·) := by
  unfold dropMarker
  rw [rows_smul, Table.contains_rename, Table.erase_rename,
    markerLeaving?_smul]
  split
  · rfl
  · cases t.markerLeaving? x with
    | none => rfl
    | some y =>
        simp only [Option.map_some, release?_smul]
        cases t.release? y x with
        | none => rfl
        | some p => exact congrArg Except.ok (substitute_smul ρ p.2 x p.1)

-- ============================================================= targets

theorem shiftRow_smul (k : α) :
    (ρ • t).shiftRow (ρ • x) (ρ • r) k = ρ • t.shiftRow x r k := by
  unfold shiftRow
  dsimp only
  rw [rows_smul, Row.shift_smul, Table.insert_rename, Row.constant_smul]
  split <;> rfl

theorem shiftColumn_smul (k : α) :
    (ρ • t).shiftColumn (ρ • x) k = ρ • t.shiftColumn x k := by
  have hrows : ((ρ • t).rows.map fun _ r =>
        if (!(r.coefficient (ρ • x) == 0)) = true then
          r.shift (k * r.coefficient (ρ • x)) else r)
      = (t.rows.map fun _ r =>
          if (!(r.coefficient x == 0)) = true then
            r.shift (k * r.coefficient x) else r).rename ρ (ρ • ·) := by
    refine Table.map_rename ρ (ρ • ·) t.rows fun _ r => ?_
    rw [Row.coefficient_smul, Row.shift_smul, apply_ite (ρ • ·)]
  have hnegative := Table.filter_rename ρ (ρ • ·)
    (t.rows.map fun _ r =>
      if (!(r.coefficient x == 0)) = true then
        r.shift (k * r.coefficient x) else r)
    (fun e => !(e.2.coefficient x == 0) && isNegative e.1 e.2)
    (fun e => !(e.2.coefficient (ρ • x) == 0) && isNegative e.1 e.2)
    fun y r => by rw [Row.coefficient_smul, isNegative_smul]
  unfold shiftColumn
  dsimp only
  rw [hrows, hnegative, infeasible_smul, ← List.map_reverse,
    ← List.map_append]
  rfl

end Tableau

-- ========================================================== footprints

/-- Renaming the symbols of a constraint. -/
instance Footprint.instMulAction : MulAction (Perm ℕ) Footprint where
  smul ρ f := ⟨ρ • f.marker, f.companion.map (ρ • ·)⟩
  one_smul f := by
    show Footprint.mk _ _ = f
    simp only [one_smul, Option.map_id']
  mul_smul ρ σ f := by
    show Footprint.mk _ _ = Footprint.mk _ _
    simp only [mul_smul]
    exact congrArg _ (Option.map_map ..).symm

namespace Footprint

variable (ρ : Perm ℕ) (f : Footprint)

@[simp] theorem marker_smul : (ρ • f).marker = ρ • f.marker := rfl

@[simp] theorem companion_smul :
    (ρ • f).companion = f.companion.map (ρ • ·) := rfl

theorem error?_smul : (ρ • f).error? = f.error?.map (ρ • ·) := by
  unfold error?
  rw [marker_smul, companion_smul, Symbol.isError_smul]
  split
  · rfl
  · cases f.companion with
    | none => rfl
    | some x =>
        cases hx : x.isError <;>
          simp [Option.filter, hx]

end Footprint

theorem Tableau.moveTarget_smul {α : Type} [Scalar α] (ρ : Perm ℕ)
    (t : Tableau α) (f : Footprint) (delta : α) :
    (ρ • t).moveTarget (ρ • f) delta = ρ • t.moveTarget f delta := by
  unfold moveTarget
  rw [Footprint.marker_smul, Footprint.companion_smul, get?_smul]
  cases t.rows.get? f.marker with
  | some r => exact shiftRow_smul ρ t _ r _
  | none =>
      cases hx : f.companion with
      | none => exact shiftColumn_smul ρ t _ _
      | some x =>
          simp only [Option.map_none, Option.map_some, Option.bind_some,
            get?_smul]
          cases t.rows.get? x with
          | none => exact shiftColumn_smul ρ t _ _
          | some r => exact shiftRow_smul ρ t x r _

-- ====================================================== numbers in use

section Below

variable {X Y : Type} [MulAction (Perm ℕ) X] [MulAction (Perm ℕ) Y]
  {n m : ℕ}

/-- Only numbers below `n` count for it: renaming the others leaves it as
it is. -/
def Below (n : ℕ) (x : X) : Prop :=
  MulAction.Supports (Perm ℕ) (Set.Iio n) x

theorem Below.mono {x : X} (h : Below n x) (hnm : n ≤ m) : Below m x :=
  MulAction.Supports.mono (Set.Iio_subset_Iio hnm) h

/-- What is made without looking at numbers needs no others. -/
theorem Below.map {f : X → Y} {x : X} (h : Below n x)
    (hf : ∀ ρ : Perm ℕ, f (ρ • x) = ρ • f x) : Below n (f x) := by
  intro ρ hρ
  rw [← hf, h ρ hρ]

theorem Below.prod {x : X} {y : Y} (hx : Below n x) (hy : Below n y) :
    Below n (x, y) := fun ρ hρ => Prod.ext (hx ρ hρ) (hy ρ hρ)

/-- Renamings that agree below `n` do the same. -/
theorem Below.smul_eq {x : X} (h : Below n x) {ρ σ : Perm ℕ}
    (hρσ : ∀ i < n, ρ i = σ i) : ρ • x = σ • x := by
  rw [← inv_smul_eq_iff, ← mul_smul]
  refine h _ fun i hi => ?_
  rw [Equiv.Perm.smul_def, Equiv.Perm.mul_apply, Equiv.Perm.inv_eq_iff_eq]
  exact hρσ i hi

theorem below_symbol {x : Symbol} (h : x.id < n) : Below n x :=
  fun _ hρ => congrArg (Symbol.mk x.kind) (hρ h)

/-- A table that renaming the numbers from `n` on leaves as it is has no
entry there. -/
private theorem get?_of_rename {β : Type} {t : Table Symbol β}
    {g : Perm ℕ → β → β}
    (h : ∀ ρ : Perm ℕ, (∀ i < n, ρ i = i) → t.rename ρ (g ρ) = t)
    {x : Symbol} (hx : n ≤ x.id) : t.get? x = none := by
  -- An entry at `x` would reappear at every number that `x` can be given.
  obtain ⟨m, hm⟩ := Infinite.exists_notMem_finset
    ((t.keys.map Symbol.id).toFinset ∪ Finset.range n)
  rw [Finset.notMem_union, List.mem_toFinset, Finset.mem_range,
    not_lt] at hm
  have hfix := h (Equiv.swap x.id m) fun i hi =>
    Equiv.swap_apply_of_ne_of_ne (by omega) (by omega)
  cases hv : t.get? x with
  | none => rfl
  | some v =>
      have hmoved : t.get? (Equiv.swap x.id m • x)
          = some (g (Equiv.swap x.id m) v) := by
        rw [← hfix, Table.get?_rename, hv]
        rfl
      refine absurd (List.mem_map.2 ⟨Equiv.swap x.id m • x, ?_, ?_⟩) hm.1
      · rw [← Table.contains_iff, Table.contains, hmoved]
        rfl
      · exact Equiv.swap_apply_left x.id m

variable {α : Type}

theorem Tableau.get?_of_below {t : Tableau α} (h : Below n t) {x : Symbol}
    (hx : n ≤ x.id) : t.rows.get? x = none :=
  get?_of_rename (fun ρ hρ =>
    congrArg Tableau.rows (h ρ fun _ hi => hρ _ hi)) hx

/-- So a number that is not in use gives a symbol without a cell. -/
theorem Row.get?_of_below {r : Row α} (h : Below n r) {x : Symbol}
    (hx : n ≤ x.id) : r.cells.get? x = none :=
  get?_of_rename (fun ρ hρ =>
    congrArg Row.cells (h ρ fun _ hi => hρ _ hi)) hx

end Below

end LinearConstraints
