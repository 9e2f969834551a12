/-
Targets: moving the value that an edit constraint asks for.

The constraint says that its variable, less a target, is the difference
of the marker and the companion. Moving the target changes no coefficient
but only the constants of the rows that depend on these two symbols.

Main statement: `moveTarget_eq_iff`, what moving a target does and when.
-/
import LinearConstraints.Tableau.Basic

namespace LinearConstraints.Tableau

variable {α : Type} [Scalar α]

/-- Adds to the constant of one row, and puts the row on the stack if that
turns it negative. -/
def shiftRow (t : Tableau α) (s : Symbol) (r : Row α) (k : α) :
    Tableau α :=
  let r := r.shift k
  { t with
    rows := t.rows.insert s r
    infeasible :=
      if r.constant < 0 then s :: t.infeasible else t.infeasible }

/-- Adds a multiple of a symbol's coefficient to the constant of every row
that mentions it, and puts those that turn negative on the stack. -/
def shiftColumn (t : Tableau α) (s : Symbol) (k : α) : Tableau α :=
  let mentions := fun r : Row α => !(r.coefficient s == 0)
  let rows := t.rows.map fun _ r =>
    if mentions r then r.shift (k * r.coefficient s) else r
  let negative := rows.entries.filter fun e =>
    mentions e.2 && isNegative e.1 e.2
  { t with
    rows
    infeasible := (negative.map Prod.fst).reverse ++ t.infeasible }

/-- Moves the value that an edit constraint asks for by `delta`. The
marker measures how far the variable is above it and the companion how
far below; where neither is basic all rows with the marker move. -/
def moveTarget (t : Tableau α) (f : Footprint) (delta : α) : Tableau α :=
  match t.rows.get? f.marker with
  | some r => t.shiftRow f.marker r (-delta)
  | none =>
      match f.companion.bind fun x => (t.rows.get? x).map (x, ·) with
      | some (x, r) => t.shiftRow x r delta
      | none => t.shiftColumn f.marker delta

-- =========================================================== inversion

/-- What moving a target does, and when. -/
inductive TargetMove (t : Tableau α) (f : Footprint) (k : α) :
    Tableau α → Prop where
  | marker {r : Row α} (row : t.rows.get? f.marker = some r) :
      TargetMove t f k (t.shiftRow f.marker r (-k))
  | companion {x : Symbol} {r : Row α}
      (row : t.rows.get? f.marker = none) (second : f.companion = some x)
      (basic : t.rows.get? x = some r) :
      TargetMove t f k (t.shiftRow x r k)
  /-- Neither of the two is basic. -/
  | column (row : t.rows.get? f.marker = none)
      (nonbasic : ∀ x, f.companion = some x → t.rows.get? x = none) :
      TargetMove t f k (t.shiftColumn f.marker k)

theorem moveTarget_eq_iff {t t' : Tableau α} {f : Footprint} {k : α} :
    t.moveTarget f k = t' ↔ TargetMove t f k t' := by
  constructor
  · rintro rfl
    unfold moveTarget
    split
    case h_1 r hr => exact .marker hr
    case h_2 hnone =>
      split
      case h_1 x r hxr =>
        obtain ⟨y, hy, hxr⟩ := Option.bind_eq_some_iff.1 hxr
        obtain ⟨r', hr, heq⟩ := Option.map_eq_some_iff.1 hxr
        obtain ⟨rfl, rfl⟩ := Prod.mk.inj heq
        exact .companion hnone hy hr
      case h_2 hno =>
        refine .column hnone fun x hx => ?_
        rw [hx, Option.bind_some, Option.map_eq_none_iff] at hno
        exact hno
  · intro h
    cases h with
    | marker row => simp [moveTarget, row]
    | companion row second basic => simp [moveTarget, row, second, basic]
    | column row nonbasic =>
        cases hx : f.companion with
        | none => simp [moveTarget, row, hx]
        | some x => simp [moveTarget, row, hx, nonbasic x hx]

end LinearConstraints.Tableau
