/-
Tableaux: definitions of basic symbols, with the objective to minimise.

Each row defines its key, a basic symbol, in terms of symbols that are
not basic. The solution that a tableau stands for sets all of those to
zero, so each basic symbol has the constant of its row as its value; it is
feasible if no symbol other than an external one is negative then. Rows
that may have turned negative wait on a stack until they are repaired.

Main statements: what an exchange of two symbols does to the rows and
their keys (`keys_install`, `get?_rows_install`,
`exchange?_eq_some_iff`).
-/
import LinearConstraints.Tableau.Row

namespace LinearConstraints

/-- A system of definitions and what is to be minimised over it. -/
structure Tableau (α : Type) where
  /-- The definitions of the basic symbols, in order of arrival. -/
  rows : Table Symbol (Row α)
  /-- The weighted sum of the error symbols. -/
  objective : Row α
  /-- Basic symbols whose value may be negative, the latest first. -/
  infeasible : List Symbol
  /-- The objective of a search for a feasible solution, while one is
  under way. -/
  auxiliary : Option (Row α)
  deriving DecidableEq

/-- Why work on a tableau stopped short. -/
inductive Tableau.Failure where
  /-- A symbol lowers the objective and no row limits it. -/
  | unboundedObjective
  /-- No row mentions the marker of a constraint to be removed. -/
  | noMarkerLeavingRow
  /-- No symbol can raise a row that is negative. -/
  | noDualEnteringSymbol
  /-- A row was to be solved for a symbol that it does not mention. -/
  | absentSymbol
  /-- The budget of pivots was spent. -/
  | budgetSpent
  deriving DecidableEq, Repr

namespace Tableau

variable {α : Type} [Scalar α]

/-- No rows and nothing to minimise. -/
def empty : Tableau α := ⟨.empty, .ofConstant 0, [], none⟩

instance : Inhabited (Tableau α) := ⟨empty⟩

/-- A row that breaks feasibility: its symbol is not external, and its
constant is negative. -/
def isNegative (s : Symbol) (r : Row α) : Bool :=
  !s.isExternal && decide (r.constant < 0)

/-- The value of a symbol in the solution that the tableau stands for. -/
def solution (t : Tableau α) (s : Symbol) : α :=
  match t.rows.get? s with
  | some r => r.constant
  | none => 0

/-- A valuation of the symbols agrees with every definition. -/
def Solves (v : Symbol → α) (t : Tableau α) : Prop :=
  ∀ s r, t.rows.get? s = some r → v s = r.value v

/-- Adds a multiple of a symbol to a form, or of its definition if the
symbol is basic. -/
def addSymbol (t : Tableau α) (form : Row α) (s : Symbol) (k : α) :
    Row α :=
  match t.rows.get? s with
  | some definition => form.addRow definition k
  | none => form.addCell s k

-- =========================================================== pivoting

/-- Replaces a symbol by its definition, in every row and objective.
Every row that is negative afterwards is put on the stack, the last row
on top. -/
def substitute (t : Tableau α) (s : Symbol) (definition : Row α) :
    Tableau α :=
  let rows := t.rows.map fun _ r => r.substitute s definition
  let negative := rows.entries.filter fun e => isNegative e.1 e.2
  { rows
    objective := t.objective.substitute s definition
    infeasible := (negative.map Prod.fst).reverse ++ t.infeasible
    auxiliary := t.auxiliary.map (·.substitute s definition) }

/-- Makes a symbol basic: substitutes its definition and adds it as the
last row. -/
def install (t : Tableau α) (s : Symbol) (definition : Row α) :
    Tableau α :=
  let t := t.substitute s definition
  { t with rows := t.rows.insert s definition }

/-- Takes out the row of a basic symbol, turned into the definition of
another symbol. -/
def release? (t : Tableau α) (leaving entering : Symbol) :
    Option (Row α × Tableau α) := do
  let r ← t.rows.get? leaving
  let definition ← r.resolve? leaving entering
  some (definition, { t with rows := t.rows.erase leaving })

/-- Makes `entering` basic in place of `leaving`. -/
def exchange? (t : Tableau α) (leaving entering : Symbol) :
    Option (Tableau α) := do
  let (definition, t) ← t.release? leaving entering
  some (t.install entering definition)

-- =============================================================== keys

@[simp] theorem keys_substitute (t : Tableau α) (s : Symbol) (d : Row α) :
    (t.substitute s d).rows.keys = t.rows.keys :=
  Table.keys_map _ t.rows

-- =============================================================== rows

section Rows

variable {t : Tableau α} {s : Symbol} {d : Row α}

theorem get?_rows_substitute (t : Tableau α) (s : Symbol) (d : Row α)
    (b : Symbol) :
    (t.substitute s d).rows.get? b
      = (t.rows.get? b).map fun r => r.substitute s d :=
  Table.get?_map _ t.rows b

/-- A row after a substitution is one before it, substituted. -/
theorem row_of_substitute {b : Symbol} {r' : Row α}
    (h : (t.substitute s d).rows.get? b = some r') :
    ∃ r, t.rows.get? b = some r ∧ r' = r.substitute s d := by
  rw [get?_rows_substitute] at h
  obtain ⟨r, hr, rfl⟩ := Option.map_eq_some_iff.1 h
  exact ⟨r, hr, rfl⟩

/-- A symbol on the stack was there before, or its row has turned
negative. -/
theorem mem_infeasible_substitute {x : Symbol} :
    x ∈ (t.substitute s d).infeasible ↔
      (∃ r, (t.substitute s d).rows.get? x = some r
        ∧ isNegative x r = true) ∨ x ∈ t.infeasible := by
  have hmem : x ∈ (t.substitute s d).infeasible ↔
      x ∈ (((t.substitute s d).rows.entries.filter fun e =>
        isNegative e.1 e.2).map Prod.fst).reverse ++ t.infeasible := Iff.rfl
  rw [hmem, List.mem_append, List.mem_reverse, Table.mem_keys_filter_iff]

theorem get?_rows_install (t : Tableau α) (s : Symbol) (d : Row α)
    (b : Symbol) :
    (t.install s d).rows.get? b = if s = b then some d
      else (t.rows.get? b).map fun r => r.substitute s d := by
  unfold install
  dsimp only
  rw [Table.get?_insert, get?_rows_substitute]

/-- A row after an installation is the new one, or one before it,
substituted. -/
theorem row_of_install {b : Symbol} {r' : Row α}
    (h : (t.install s d).rows.get? b = some r') :
    s = b ∧ r' = d
      ∨ ∃ r, t.rows.get? b = some r ∧ r' = r.substitute s d := by
  rw [get?_rows_install] at h
  split at h
  case isTrue hsb => exact Or.inl ⟨hsb, (Option.some.inj h).symm⟩
  · obtain ⟨r, hr, rfl⟩ := Option.map_eq_some_iff.1 h
    exact Or.inr ⟨r, hr, rfl⟩

theorem size_substitute (t : Tableau α) (s : Symbol) (d : Row α) :
    (t.substitute s d).rows.size = t.rows.size := Table.size_map ..

/-- A symbol that becomes basic brings a row. -/
theorem size_install (h : t.rows.get? s = none) (d : Row α) :
    (t.install s d).rows.size = t.rows.size + 1 := by
  have hs : (t.substitute s d).rows.get? s = none := by
    rw [get?_rows_substitute, h]
    rfl
  exact (Table.size_insert_of_none hs d).trans
    (congrArg (· + 1) (size_substitute ..))

-- ==================================================== without one row

/-- The tableau without the row of a symbol. -/
def without (t : Tableau α) (b : Symbol) : Tableau α :=
  { t with rows := t.rows.erase b }

omit [Scalar α] in
theorem get?_rows_without (t : Tableau α) (b x : Symbol) :
    (t.without b).rows.get? x
      = if b = x then none else t.rows.get? x :=
  Table.get?_erase t.rows b x

omit [Scalar α] in
theorem get?_of_without {b x : Symbol} {r : Row α}
    (h : (t.without b).rows.get? x = some r) :
    b ≠ x ∧ t.rows.get? x = some r := by
  rw [get?_rows_without] at h
  split at h
  · cases h
  case isFalse hbx => exact ⟨hbx, h⟩

theorem release?_eq_some_iff {leaving entering : Symbol} {d : Row α}
    {t' : Tableau α} :
    t.release? leaving entering = some (d, t')
      ↔ ∃ r, t.rows.get? leaving = some r
          ∧ r.resolve? leaving entering = some d
          ∧ t' = t.without leaving := by
  unfold release? without
  cases hr : t.rows.get? leaving with
  | none => simp
  | some r =>
      cases hd : r.resolve? leaving entering with
      | none => simp [hd]
      | some d' => simp [hd, eq_comm]

theorem exchange?_eq_some_iff {leaving entering : Symbol}
    {t' : Tableau α} :
    t.exchange? leaving entering = some t'
      ↔ ∃ r d, t.rows.get? leaving = some r
          ∧ r.resolve? leaving entering = some d
          ∧ t' = (t.without leaving).install entering d := by
  unfold exchange?
  cases hrel : t.release? leaving entering with
  | none =>
      constructor
      · intro h
        cases h
      · intro hrow
        obtain ⟨r, d, hr, hd, -⟩ := hrow
        have := release?_eq_some_iff.2 ⟨r, hr, hd, rfl⟩
        rw [hrel] at this
        cases this
  | some p =>
      obtain ⟨d₀, t₀⟩ := p
      obtain ⟨r₀, hr₀, hd₀, rfl⟩ := release?_eq_some_iff.1 hrel
      constructor
      · intro h
        exact ⟨r₀, d₀, hr₀, hd₀, (Option.some.inj h).symm⟩
      · intro hrow
        obtain ⟨r, d, hr, hd, rfl⟩ := hrow
        rw [hr₀] at hr
        injection hr with hr
        rw [← hr, hd₀] at hd
        injection hd with hd
        rw [← hd]
        rfl

/-- A symbol that has left the basis is not basic. -/
theorem get?_of_exchange? {leaving entering : Symbol} {t' : Tableau α}
    (h : t.exchange? leaving entering = some t') (hne : entering ≠ leaving) :
    t'.rows.get? leaving = none := by
  obtain ⟨_, _, _, _, rfl⟩ := exchange?_eq_some_iff.1 h
  rw [get?_rows_install, if_neg hne, get?_rows_without, if_pos rfl]
  rfl

end Rows

end Tableau

end LinearConstraints
