/-
Removal: takes the equation of one constraint out of a tableau.

The marker of a constraint occurs in no other constraint's equation. Once
it is basic its row can be dropped, and what the other rows say of the
other symbols is all that remains. To become basic, the marker takes the
place of a row chosen so that the rows which stay do not turn negative.

Main statement: `dropMarker_eq_iff`, what dropping a marker does and when.
-/
import LinearConstraints.Scalar.Ratio
import LinearConstraints.Tableau.Basic

namespace LinearConstraints.Tableau

variable {α : Type} [Scalar α]

/-- The restricted rows that a symbol lowers as it grows, with the value
at which each becomes zero. -/
def fallingRows (t : Tableau α) (s : Symbol) : List (Symbol × α) :=
  t.rows.entries.filterMap fun e =>
    let c := e.2.coefficient s
    if !e.1.isExternal && decide (c < 0) then
      some (e.1, -e.2.constant / c)
    else none

/-- The restricted rows that a symbol raises as it grows, with the value
below zero at which each becomes zero, sign dropped. -/
def risingRows (t : Tableau α) (s : Symbol) : List (Symbol × α) :=
  t.rows.entries.filterMap fun e =>
    let c := e.2.coefficient s
    if !e.1.isExternal && decide (0 < c) then
      some (e.1, e.2.constant / c)
    else none

/-- The external rows that mention a symbol. -/
def externalRows (t : Tableau α) (s : Symbol) : List Symbol :=
  (t.rows.entries.filter fun e =>
    e.1.isExternal && !(e.2.coefficient s == 0)).map Prod.fst

/-- The row that a marker replaces: the first falling row of least ratio,
else the first rising row of least ratio, else the last external row. -/
def markerLeaving? (t : Tableau α) (marker : Symbol) : Option Symbol :=
  (Scalar.leastRatio (t.fallingRows marker)).or
    ((Scalar.leastRatio (t.risingRows marker)).or
      (t.externalRows marker).getLast?)

/-- Drops the row of a marker, which becomes basic first if it is not. -/
def dropMarker (t : Tableau α) (marker : Symbol) :
    Except Failure (Tableau α) :=
  if t.rows.contains marker then
    .ok { t with rows := t.rows.erase marker }
  else
    match t.markerLeaving? marker with
    | none => .error .noMarkerLeavingRow
    | some leaving =>
        match t.release? leaving marker with
        | none => .error .absentSymbol
        | some (definition, t') => .ok (t'.substitute marker definition)

-- =========================================================== inversion

/-- What dropping a marker does, and when. -/
inductive MarkerDrop (t : Tableau α) (m : Symbol) :
    Except Failure (Tableau α) → Prop where
  | basic {r : Row α} (row : t.rows.get? m = some r) :
      MarkerDrop t m (.ok (t.without m))
  /-- No row is left to the marker. -/
  | missing (row : t.rows.get? m = none)
      (leaves : t.markerLeaving? m = none) :
      MarkerDrop t m (.error .noMarkerLeavingRow)
  /-- The row that the marker is to replace cannot be solved for it. -/
  | absent {b : Symbol} (row : t.rows.get? m = none)
      (leaves : t.markerLeaving? m = some b)
      (released : t.release? b m = none) :
      MarkerDrop t m (.error .absentSymbol)
  /-- The marker becomes basic in place of another symbol. -/
  | released {b : Symbol} {r d : Row α} (row : t.rows.get? m = none)
      (leaves : t.markerLeaving? m = some b)
      (leaving : t.rows.get? b = some r) (solved : r.resolve? b m = some d) :
      MarkerDrop t m (.ok ((t.without b).substitute m d))

theorem dropMarker_eq_iff {t : Tableau α} {m : Symbol}
    {x : Except Failure (Tableau α)} :
    t.dropMarker m = x ↔ MarkerDrop t m x := by
  constructor
  · rintro rfl
    unfold dropMarker
    split
    case isTrue hm =>
      obtain ⟨r, hr⟩ := Option.isSome_iff_exists.1 hm
      exact .basic hr
    case isFalse hm =>
      have hrow := Option.not_isSome_iff_eq_none.1 hm
      split
      case h_1 hb => exact .missing hrow hb
      case h_2 b hb =>
        split
        case h_1 hrel => exact .absent hrow hb hrel
        case h_2 d t' hrel =>
          obtain ⟨r, hr, hd, rfl⟩ := release?_eq_some_iff.1 hrel
          exact .released hrow hb hr hd
  · intro h
    cases h with
    | basic row => simp [dropMarker, Table.contains, row, without]
    | missing row leaves => simp [dropMarker, Table.contains, row, leaves]
    | absent row leaves released =>
        simp [dropMarker, Table.contains, row, leaves, released]
    | released row leaves leaving solved =>
        have hrel := release?_eq_some_iff.2 ⟨_, leaving, solved, rfl⟩
        simp [dropMarker, Table.contains, row, leaves, hrel]

/-- Dropping a marker fails in no other way than for want of a row, or
where a row was to be solved for a symbol that it does not mention. -/
theorem error_of_dropMarker {t : Tableau α} {m : Symbol} {f : Failure}
    (h : t.dropMarker m = .error f) :
    f = .noMarkerLeavingRow ∨ f = .absentSymbol := by
  cases dropMarker_eq_iff.1 h with
  | missing => exact Or.inl rfl
  | absent => exact Or.inr rfl

end LinearConstraints.Tableau
