/-
Rows: affine forms over tableau symbols.

A row is a constant and one cell per symbol. Coefficients accumulate in
their cells, and a cell whose coefficient comes near zero is dropped at
once; scaling a whole row drops nothing. Cells stay in the order in which
they were first written. A row may be read as a form with a value, as an
equation that sets the form to zero, or as the definition of a symbol.

Main statements: what each operation does to the cells, and so which
symbols remain (`get?_addCell`, `get?_addRow`, `get?_isolate?`,
`get?_resolve?`).
-/
import LinearConstraints.Scalar.Basic
import LinearConstraints.Table
import LinearConstraints.Tableau.Symbol

namespace LinearConstraints

/-- The affine form `constant + Σ coefficient * symbol`. -/
structure Row (α : Type) where
  constant : α
  cells : Table Symbol α
  deriving DecidableEq

namespace Row

variable {α : Type} [Scalar α]

-- ============================================================== views

/-- The row without cells. -/
def ofConstant (k : α) : Row α := ⟨k, .empty⟩

instance : Inhabited (Row α) := ⟨ofConstant 0⟩

/-- The coefficient of a symbol, zero where it has no cell. -/
def coefficient (r : Row α) (s : Symbol) : α := (r.cells.get? s).getD 0

/-- The symbols that have a cell. -/
def symbols (r : Row α) : List Symbol := r.cells.keys

/-- The value of the form under a valuation of the symbols. -/
def value (v : Symbol → α) (r : Row α) : α :=
  r.constant + (r.cells.entries.map fun c => c.2 * v c.1).sum

/-- All symbols are dummies. -/
def onlyDummies (r : Row α) : Bool := r.symbols.all Symbol.isDummy

/-- The first symbol that may become basic on its own. -/
def firstPivotable? (r : Row α) : Option Symbol :=
  r.symbols.find? Symbol.isPivotable

-- ========================================================= operations

/-- Adds to the constant. -/
def shift (r : Row α) (k : α) : Row α :=
  { r with constant := r.constant + k }

/-- Adds to the coefficient of a symbol; a sum near zero has no cell. -/
def addCell (r : Row α) (s : Symbol) (k : α) : Row α :=
  let sum := r.coefficient s + k
  { r with
    cells := if Scalar.nearZero sum then r.cells.erase s
      else r.cells.insert s sum }

/-- Adds a multiple of another row, cell by cell. -/
def addRow (r : Row α) (other : Row α) (k : α) : Row α :=
  other.cells.entries.foldl (fun acc c => acc.addCell c.1 (c.2 * k))
    (r.shift (other.constant * k))

/-- Drops the cell of a symbol. -/
def discard (r : Row α) (s : Symbol) : Row α :=
  { r with cells := r.cells.erase s }

/-- Multiplies the constant and all coefficients. -/
def scaled (r : Row α) (k : α) : Row α :=
  ⟨r.constant * k, r.cells.map fun _ c => c * k⟩

/-- Changes the sign of the constant and all coefficients. -/
def negated (r : Row α) : Row α :=
  ⟨-r.constant, r.cells.map fun _ c => -c⟩

/-- Reads the row as an equation and solves it for a symbol: from
`a * s + rest = 0` to `s = (-1 / a) * rest`. The symbol must have a
cell. -/
def isolate? (r : Row α) (s : Symbol) : Option (Row α) :=
  match r.cells.get? s with
  | none => none
  | some a => some ((r.discard s).scaled (-1 / a))

/-- Turns the definition of `leaving` into the definition of
`entering`. -/
def resolve? (r : Row α) (leaving entering : Symbol) : Option (Row α) :=
  (r.addCell leaving (-1)).isolate? entering

/-- Replaces a symbol by its definition. -/
def substitute (r : Row α) (s : Symbol) (definition : Row α) : Row α :=
  match r.cells.get? s with
  | none => r
  | some a => (r.discard s).addRow definition a

-- ============================================== symbols, coefficients

omit [Scalar α] in
theorem mem_symbols_iff {r : Row α} {x : Symbol} :
    x ∈ r.symbols ↔ ∃ k, r.cells.get? x = some k :=
  Table.mem_keys_iff

omit [Scalar α] in
theorem get?_eq_none_iff {r : Row α} {x : Symbol} :
    r.cells.get? x = none ↔ x ∉ r.symbols := by
  rw [mem_symbols_iff, not_exists]
  exact Option.eq_none_iff_forall_ne_some

theorem coefficient_of_not_mem {r : Row α} {x : Symbol}
    (h : x ∉ r.symbols) : r.coefficient x = 0 := by
  unfold coefficient
  rw [get?_eq_none_iff.2 h]
  rfl

-- ======================================================= cell lookups

theorem get?_addCell (r : Row α) (s s' : Symbol) (k : α) :
    (r.addCell s k).cells.get? s' =
      if s = s' then
        if Scalar.nearZero (r.coefficient s + k) then none
        else some (r.coefficient s + k)
      else r.cells.get? s' := by
  unfold addCell
  dsimp only
  by_cases hz : Scalar.nearZero (r.coefficient s + k) = true
  · rw [if_pos hz, Table.get?_erase]
    simp [hz]
  · rw [if_neg hz, Table.get?_insert]
    simp [hz]

omit [Scalar α] in
theorem get?_discard (r : Row α) (s s' : Symbol) :
    (r.discard s).cells.get? s' =
      if s = s' then none else r.cells.get? s' :=
  Table.get?_erase r.cells s s'

@[simp] theorem get?_scaled (r : Row α) (k : α) (s : Symbol) :
    (r.scaled k).cells.get? s = (r.cells.get? s).map (· * k) :=
  Table.get?_map _ r.cells s

@[simp] theorem get?_negated (r : Row α) (s : Symbol) :
    r.negated.cells.get? s = (r.cells.get? s).map (-·) :=
  Table.get?_map _ r.cells s

@[simp] theorem symbols_scaled (r : Row α) (k : α) :
    (r.scaled k).symbols = r.symbols :=
  Table.keys_map _ r.cells

@[simp] theorem symbols_negated (r : Row α) :
    r.negated.symbols = r.symbols :=
  Table.keys_map _ r.cells

@[simp] theorem constant_addCell (r : Row α) (s : Symbol) (k : α) :
    (r.addCell s k).constant = r.constant := rfl

/-- Adding a multiple of a row adds that multiple of its constant. -/
theorem constant_addRow (r other : Row α) (k : α) :
    (r.addRow other k).constant = r.constant + other.constant * k := by
  have key : ∀ (l : List (Symbol × α)) (acc : Row α),
      (l.foldl (fun acc c => acc.addCell c.1 (c.2 * k)) acc).constant
        = acc.constant := by
    intro l
    induction l with
    | nil => intro acc; rfl
    | cons c l ih =>
        intro acc
        rw [List.foldl_cons, ih]
        rfl
  exact key _ _

/-- What adding a multiple of a row does to one cell. -/
theorem get?_addRow (r d : Row α) (k : α) (x : Symbol) :
    (r.addRow d k).cells.get? x =
      match d.cells.get? x with
      | none => r.cells.get? x
      | some a =>
          if Scalar.nearZero (r.coefficient x + a * k) then none
          else some (r.coefficient x + a * k) := by
  have key : ∀ (l : List (Symbol × α)) (acc : Row α),
      (l.map Prod.fst).Nodup →
      (l.foldl (fun acc c => acc.addCell c.1 (c.2 * k)) acc).cells.get? x =
        match Table.lookup x l with
        | none => acc.cells.get? x
        | some a =>
            if Scalar.nearZero (acc.coefficient x + a * k) then none
            else some (acc.coefficient x + a * k) := by
    intro l
    induction l with
    | nil => exact fun _ _ => rfl
    | cons c l ih =>
        obtain ⟨y, a⟩ := c
        intro acc hnodup
        obtain ⟨hy, hnodup⟩ := List.nodup_cons.1 hnodup
        rw [List.foldl_cons, ih _ hnodup, Table.lookup]
        by_cases hyx : y = x
        · -- The rest of the row leaves the cell alone.
          have hrest : Table.lookup x l = none := by
            have := mt Table.lookup_isSome_iff.1 (hyx ▸ hy)
            exact Option.not_isSome_iff_eq_none.1 this
          rw [hrest, if_pos hyx]
          dsimp only
          rw [get?_addCell, if_pos hyx, hyx]
        · have hcell : (acc.addCell y (a * k)).cells.get? x
              = acc.cells.get? x := by
            rw [get?_addCell, if_neg hyx]
          rw [if_neg hyx, coefficient, hcell]
          rfl
  exact key d.cells.entries (r.shift (d.constant * k)) d.cells.nodup

/-- What replacing a symbol by its definition does to one cell. -/
theorem get?_substitute {r : Row α} {s : Symbol} {k : α}
    (hs : r.cells.get? s = some k) (d : Row α) (x : Symbol) :
    (r.substitute s d).cells.get? x =
      match d.cells.get? x with
      | none => (r.discard s).cells.get? x
      | some a =>
          if Scalar.nearZero ((r.discard s).coefficient x + a * k) then none
          else some ((r.discard s).coefficient x + a * k) := by
  unfold substitute
  rw [hs]
  exact get?_addRow ..

/-- A substitution leaves the cells of symbols alone that the definition
does not mention. -/
theorem get?_substitute_of_not_mem {r d : Row α} {x s : Symbol}
    (hxs : x ≠ s) (hd : x ∉ d.symbols) :
    (r.substitute s d).cells.get? x = r.cells.get? x := by
  cases hs : r.cells.get? s with
  | none =>
      unfold substitute
      rw [hs]
  | some k =>
      rw [get?_substitute hs, get?_eq_none_iff.2 hd]
      exact (get?_discard ..).trans (if_neg hxs.symm)

-- ============================================================= solving

/-- A symbol can be solved for exactly if it has a cell. -/
theorem isolate?_eq_none_iff {r : Row α} {s : Symbol} :
    r.isolate? s = none ↔ r.cells.get? s = none := by
  unfold isolate?
  cases r.cells.get? s <;> simp

/-- The cells of a solved row are those of the equation, scaled. -/
theorem get?_isolate? {r d : Row α} {s : Symbol} {a : α}
    (ha : r.cells.get? s = some a) (hd : r.isolate? s = some d)
    (x : Symbol) :
    d.cells.get? x = if s = x then none
      else (r.cells.get? x).map (· * (-1 / a)) := by
  unfold isolate? at hd
  rw [ha] at hd
  obtain rfl := Option.some.inj hd
  rw [get?_scaled, get?_discard]
  split <;> rfl

/-- A solved row does not mention the symbol it defines. -/
theorem get?_of_isolate? {r d : Row α} {s : Symbol}
    (h : r.isolate? s = some d) : d.cells.get? s = none := by
  cases ha : r.cells.get? s with
  | none => rw [isolate?_eq_none_iff.2 ha] at h; cases h
  | some a => exact (get?_isolate? ha h s).trans (if_pos rfl)

/-- The cells of a definition that has been turned around, if it did not
mention the symbol it defines and if minus one, added to zero, does not
count as zero. -/
theorem get?_resolve? (hunit : Scalar.nearZero (0 + -1 : α) = false)
    {r d : Row α} {leaving entering : Symbol} {c : α}
    (hl : leaving ∉ r.symbols) (hc : r.cells.get? entering = some c)
    (hd : r.resolve? leaving entering = some d) (x : Symbol) :
    d.cells.get? x = if entering = x then none
      else if leaving = x then some ((0 + -1) * (-1 / c))
      else (r.cells.get? x).map (· * (-1 / c)) := by
  have hne : leaving ≠ entering :=
    fun heq => hl (heq ▸ mem_symbols_iff.2 ⟨c, hc⟩)
  have hcell : ∀ y, (r.addCell leaving (-1)).cells.get? y
      = if leaving = y then some (0 + -1) else r.cells.get? y := by
    intro y
    rw [get?_addCell, coefficient_of_not_mem hl, hunit]
    rfl
  have ha : (r.addCell leaving (-1)).cells.get? entering = some c := by
    rw [hcell, if_neg hne, hc]
  rw [get?_isolate? ha hd x, hcell]
  split
  · rfl
  · split <;> rfl

end Row

end LinearConstraints
