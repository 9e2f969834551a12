/-
Feasibility: whether one more equation can hold beside those of a tableau.

An equation in which no symbol can be made basic at once is given an
artificial symbol, equal to its left side. The equation is feasible if
the artificial symbol can be brought down to zero; it is then removed
again. Where it cannot, the tableau is left as it was.

Main statements: `retire_eq_iff` and `searchWith_eq_iff`, how the
artificial symbol is removed and how a search ends, and when;
`adjoin_state_of_ne_ok`.
-/
import LinearConstraints.Tableau.Primal

namespace LinearConstraints.Tableau

variable {α : Type} [Scalar α]

/-- The tableau in which the artificial symbol is basic, and its row the
objective of the search. -/
def withArtificial (t : Tableau α) (art : Symbol) (r : Row α) :
    Tableau α :=
  { t with rows := t.rows.insert art r, auxiliary := some r }

/-- Drops a symbol from every row and from the objective. -/
def purge (t : Tableau α) (s : Symbol) : Tableau α :=
  { t with
    rows := t.rows.map fun _ r => r.discard s
    objective := t.objective.discard s }

/-- Removes an artificial symbol that has come down to zero. While it is
basic it is first exchanged for a slack or error symbol of its row; a row
that says nothing is dropped, and a row of other symbols only is not
feasible. -/
def retire (t : Tableau α) (art : Symbol) :
    Outcome (Tableau α) Failure Bool :=
  match t.rows.get? art with
  | none => .ok (t.purge art) true
  | some r =>
      if r.cells.isEmpty then
        .ok { t with rows := t.rows.erase art } true
      else
        match r.firstPivotable? with
        | none => .ok t false
        | some entering =>
            match t.exchange? art entering with
            | none => .error t .absentSymbol
            | some t' => .ok (t'.purge art) true

/-- Minimises the artificial symbol and retires it at zero. -/
def searchWith (budget : Nat) (t : Tableau α) (art : Symbol)
    (r : Row α) : Outcome (Tableau α) Failure Bool :=
  ((t.withArtificial art r).minimise budget .auxiliary).andThen fun t _ =>
    let reached := t.auxiliary.any fun a => Scalar.nearZero a.constant
    if reached then { t with auxiliary := none }.retire art
    else .ok t false

/-- Adds the equation that sets a row to zero, if it is feasible. Unless
it has been added, the tableau is what it was before. -/
def adjoin (budget : Nat) (t : Tableau α) (art : Symbol) (r : Row α) :
    Outcome (Tableau α) Failure Bool :=
  let o := t.searchWith budget art r
  match o.result with
  | .ok true => o
  | result => ⟨t, result⟩

-- ========================================================== retirement

/-- How the artificial symbol is removed, and when. -/
inductive Retirement (t : Tableau α) (art : Symbol) :
    Outcome (Tableau α) Failure Bool → Prop where
  /-- The symbol has left the basis. -/
  | away (row : t.rows.get? art = none) :
      Retirement t art (.ok (t.purge art) true)
  /-- Its row says nothing. -/
  | empty {r : Row α} (row : t.rows.get? art = some r)
      (cells : r.cells.isEmpty = true) :
      Retirement t art (.ok (t.without art) true)
  /-- Its row mentions no slack and no error symbol. -/
  | refused {r : Row α} (row : t.rows.get? art = some r)
      (cells : r.cells.isEmpty = false)
      (enters : r.firstPivotable? = none) :
      Retirement t art (.ok t false)
  /-- Its row cannot be solved for the symbol found in it. -/
  | absent {r : Row α} {s : Symbol} (row : t.rows.get? art = some r)
      (cells : r.cells.isEmpty = false)
      (enters : r.firstPivotable? = some s)
      (exchange : t.exchange? art s = none) :
      Retirement t art (.error t .absentSymbol)
  | pivot {r : Row α} {s : Symbol} {t' : Tableau α}
      (row : t.rows.get? art = some r) (cells : r.cells.isEmpty = false)
      (enters : r.firstPivotable? = some s)
      (exchange : t.exchange? art s = some t') :
      Retirement t art (.ok (t'.purge art) true)

theorem retire_eq_iff {t : Tableau α} {art : Symbol}
    {o : Outcome (Tableau α) Failure Bool} :
    t.retire art = o ↔ Retirement t art o := by
  constructor
  · rintro rfl
    unfold retire
    split
    case h_1 hnone => exact .away hnone
    case h_2 r hr =>
      split
      case isTrue hcells => exact .empty hr hcells
      case isFalse hcells =>
        have hcells := Bool.eq_false_iff.2 hcells
        split
        case h_1 hs => exact .refused hr hcells hs
        case h_2 s hs =>
          split
          case h_1 hex => exact .absent hr hcells hs hex
          case h_2 hex => exact .pivot hr hcells hs hex
  · intro h
    cases h with
    | away row => simp [retire, row]
    | empty row cells => simp [retire, row, cells, without]
    | refused row cells enters => simp [retire, row, cells, enters]
    | absent row cells enters exchange | pivot row cells enters exchange =>
        simp [retire, row, cells, enters, exchange]

-- ============================================================ searches

/-- How a search comes to its end, and when. -/
inductive SearchEnd (budget : Nat) (t : Tableau α) (art : Symbol)
    (r : Row α) : Outcome (Tableau α) Failure Bool → Prop where
  | failed {u : Tableau α} {f : Failure}
      (minimised : (t.withArtificial art r).minimise budget .auxiliary
        = .error u f) :
      SearchEnd budget t art r (.error u f)
  /-- The minimum is not zero. -/
  | above {u : Tableau α}
      (minimised : (t.withArtificial art r).minimise budget .auxiliary
        = .ok u ())
      (unreached : (u.auxiliary.any fun a => Scalar.nearZero a.constant)
        = false) :
      SearchEnd budget t art r (.ok u false)
  | zero {u : Tableau α}
      (minimised : (t.withArtificial art r).minimise budget .auxiliary
        = .ok u ())
      (reached : (u.auxiliary.any fun a => Scalar.nearZero a.constant)
        = true) :
      SearchEnd budget t art r ({ u with auxiliary := none }.retire art)

theorem searchWith_eq_iff {budget : Nat} {t : Tableau α} {art : Symbol}
    {r : Row α} {o : Outcome (Tableau α) Failure Bool} :
    t.searchWith budget art r = o ↔ SearchEnd budget t art r o := by
  constructor
  · rintro rfl
    unfold searchWith
    generalize ho : (t.withArtificial art r).minimise budget .auxiliary = m
    obtain ⟨u, result⟩ := m
    cases result with
    | error f => exact .failed ho
    | ok _ =>
        show SearchEnd budget t art r (if _ then _ else _)
        split
        case isTrue hreached => exact .zero ho hreached
        case isFalse hreached => exact .above ho (Bool.eq_false_iff.2 hreached)
  · intro h
    cases h with
    | failed minimised => simp [searchWith, minimised]
    | above minimised unreached => simp [searchWith, minimised, unreached]
    | zero minimised reached => simp [searchWith, minimised, reached]

-- ========================================================= adjunctions

/-- An adjunction that does not succeed leaves no trace. -/
theorem adjoin_state_of_ne_ok {budget : Nat} {t : Tableau α}
    {art : Symbol} {r : Row α}
    (h : (t.adjoin budget art r).result ≠ .ok true) :
    (t.adjoin budget art r).state = t := by
  unfold adjoin at h ⊢
  dsimp only at h ⊢
  split
  case h_1 hyes =>
    rw [hyes] at h
    exact absurd hyes h
  · rfl

/-- An adjunction that succeeds is its search. -/
theorem adjoin_eq_of_ok {budget : Nat} {t : Tableau α} {art : Symbol}
    {r : Row α} (h : (t.adjoin budget art r).result = .ok true) :
    t.adjoin budget art r = t.searchWith budget art r := by
  unfold adjoin at h ⊢
  dsimp only at h ⊢
  split
  · rfl
  case h_2 hno =>
    split at h
    case h_1 hyes => exact absurd hyes hno
    · exact absurd h hno

end LinearConstraints.Tableau
