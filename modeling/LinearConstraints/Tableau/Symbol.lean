/-
Tableau symbols: the unknowns of the equations a solver works on.
-/

namespace LinearConstraints

/-- The part a symbol plays. -/
inductive Symbol.Kind where
  /-- Stands for a caller's variable, of either sign. -/
  | external
  /-- Takes up the slack of an inequality, never negative. -/
  | slack
  /-- Measures a violation, never negative; its weight is in the
  objective. -/
  | error
  /-- Marks a required equality, and is zero. -/
  | dummy
  deriving DecidableEq, Repr

/-- A tableau symbol. No two symbols of one solver share a number. -/
structure Symbol where
  kind : Symbol.Kind
  id : Nat
  deriving DecidableEq, Repr

namespace Symbol

/-- The symbol stands for a caller's variable. -/
def isExternal (s : Symbol) : Bool := s.kind == .external

/-- The symbol marks a required equality. -/
def isDummy (s : Symbol) : Bool := s.kind == .dummy

/-- The symbol measures a violation. -/
def isError (s : Symbol) : Bool := s.kind == .error

/-- The symbol may become basic on its own: it is slack or error. -/
def isPivotable (s : Symbol) : Bool := s.kind == .slack || s.kind == .error

variable {x y : Symbol} {k : Kind}

/-- Symbols that a test tells apart are two. -/
theorem ne_of_test {p : Symbol → Bool} (hx : p x = true)
    (hy : p y = false) : x ≠ y := by
  intro heq
  rw [heq, hy] at hx
  cases hx

theorem isExternal_of_kind (h : x.kind = k) (hk : k ≠ .external) :
    x.isExternal = false := by
  unfold isExternal
  rw [h]
  exact beq_false_of_ne hk

theorem isDummy_of_kind (h : x.kind = k) (hk : k ≠ .dummy) :
    x.isDummy = false := by
  unfold isDummy
  rw [h]
  exact beq_false_of_ne hk

theorem kind_of_isPivotable (h : x.isPivotable = true) :
    x.kind = .slack ∨ x.kind = .error :=
  (Bool.or_eq_true_iff.1 h).imp beq_iff_eq.1 beq_iff_eq.1

theorem isExternal_of_isPivotable (h : x.isPivotable = true) :
    x.isExternal = false := by
  rcases kind_of_isPivotable h with hk | hk
  · exact isExternal_of_kind hk (by decide)
  · exact isExternal_of_kind hk (by decide)

theorem isDummy_of_isPivotable (h : x.isPivotable = true) :
    x.isDummy = false := by
  rcases kind_of_isPivotable h with hk | hk
  · exact isDummy_of_kind hk (by decide)
  · exact isDummy_of_kind hk (by decide)

theorem isError_of_kind (h : x.kind = .error) : x.isError = true := by
  unfold isError
  rw [h]
  rfl

theorem not_isError_of_kind (h : x.kind = k) (hk : k ≠ .error) :
    x.isError = false := by
  unfold isError
  rw [h]
  exact beq_false_of_ne hk

end Symbol

/-- The symbols that stand for one constraint. -/
structure Footprint where
  /-- Occurs in no other constraint's equation. -/
  marker : Symbol
  /-- The second symbol: the error of an inequality that may be violated,
  the negative error of such an equality. -/
  companion : Option Symbol
  deriving DecidableEq, Repr

/-- The error symbol whose weight stands for the constraint in the
objective. -/
def Footprint.error? (f : Footprint) : Option Symbol :=
  if f.marker.isError then some f.marker
  else f.companion.filter Symbol.isError

end LinearConstraints
