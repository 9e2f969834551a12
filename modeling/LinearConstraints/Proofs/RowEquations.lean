/-
Rows as equations, in exact arithmetic.

A tableau reads its rows in two ways. A new constraint is an equation: its
row is to be zero. A stored row is a definition: its key is to have the
value of the row. Each operation is described by what it does to these
readings, under one valuation of the symbols at a time. So nothing is said
about how cells are met, cancel or stay, and everything that matters to
the solutions of a tableau is.

Turning a definition around twice is the one statement about cells: it
gives back every cell, those included that are stored with zero.

Main statements: `exists_isolate?` and `exists_resolve?`, that a solved
row exists and says the same; `get?_of_resolve?_resolve?`, that turning a
definition around is undone by turning it back; and
`operations_keep_equations`, all operations together.
-/
import LinearConstraints.Proofs.Search

namespace LinearConstraints.Row

variable {r d b : Row Rat} {s leaving entering : Symbol}

-- ========================================================== solutions

/-- A quotient vanishes with its numerator: what a symbol has in addition
to the value of the solved row is zero exactly if the row is. -/
private theorem eq_sub_div_iff {a x y : Rat} (ha : a ≠ 0) :
    y = 0 ↔ x = x - y / a := by
  rw [eq_comm (a := x), sub_eq_self, div_eq_zero_iff, or_iff_left ha]

/-- A row with a coefficient for a symbol can be solved for it. The solved
row is without the symbol, and is its value wherever the row is zero, and
nowhere else. -/
theorem exists_isolate? (ha : r.coefficient s ≠ 0) :
    ∃ d, r.isolate? s = some d ∧ s ∉ d.symbols
      ∧ ∀ v, r.value v = 0 ↔ v s = d.value v := by
  have hd := isolate?_of_coefficient_ne ha
  refine ⟨_, hd, get?_eq_none_iff.1 (get?_of_isolate? hd), fun v => ?_⟩
  rw [value_of_isolate? ha hd v]
  exact eq_sub_div_iff ha

/-- The definition of a symbol can be turned into that of another symbol
which it mentions. The two say the same of every valuation, also if the
symbol occurs in its own definition. -/
theorem exists_resolve? (hne : leaving ≠ entering)
    (ha : r.coefficient entering ≠ 0) :
    ∃ d, r.resolve? leaving entering = some d
      ∧ ∀ v, v leaving = r.value v ↔ v entering = d.value v := by
  have hcell : (r.addCell leaving (-1)).coefficient entering ≠ 0 := by
    rwa [coefficient_entering hne]
  obtain ⟨d, hd, -, -⟩ := exists_isolate? hcell
  refine ⟨d, hd, fun v => ?_⟩
  rw [value_of_resolve? hne ha hd v, ← eq_sub_div_iff ha, sub_eq_zero]
  exact eq_comm

/-- A substitution of a definition that is free of its own symbol rids the
row of the symbol. -/
theorem not_mem_symbols_substitute (hd : s ∉ d.symbols) (r : Row Rat) :
    s ∉ (r.substitute s d).symbols := by
  have hwithin : (r.substitute s d).Within (· ≠ s) :=
    .substitute (fun _ _ hx => hx) fun _ x hx hxs => hd (hxs ▸ hx)
  exact fun hs => hwithin s hs rfl

-- ========================================================= round trips

/-- The cells of a definition that has been turned around. -/
theorem get?_of_resolve? (hl : leaving ∉ r.symbols)
    (ha : r.coefficient entering ≠ 0)
    (hd : r.resolve? leaving entering = some d) (x : Symbol) :
    d.cells.get? x = if entering = x then none
      else if leaving = x then some (1 / r.coefficient entering)
      else (r.cells.get? x).map (· * (-1 / r.coefficient entering)) := by
  have hone : (0 + -1) * (-1 / r.coefficient entering)
      = 1 / r.coefficient entering := by ring
  rw [get?_resolve? VisibleUnit.neg_one hl (get?_of_coefficient_ne ha) hd x]
  exact hone ▸ rfl

/-- Turning a definition that is free of its own symbol around and back
gives the definition: its constant, and every cell with its
coefficient. -/
theorem get?_of_resolve?_resolve? (hne : leaving ≠ entering)
    (hl : leaving ∉ r.symbols) (ha : r.coefficient entering ≠ 0)
    (hd : r.resolve? leaving entering = some d) :
    ∃ b, d.resolve? entering leaving = some b
      ∧ b.constant = r.constant
      ∧ ∀ x, b.cells.get? x = r.cells.get? x := by
  have hcells := get?_of_resolve? hl ha hd
  have hl' : entering ∉ d.symbols :=
    get?_eq_none_iff.1 ((hcells entering).trans (if_pos rfl))
  have hcoef : d.coefficient leaving = 1 / r.coefficient entering := by
    refine coefficient_of_get? ((hcells leaving).trans ?_)
    rw [if_neg hne.symm, if_pos rfl]
  have ha' : d.coefficient leaving ≠ 0 :=
    hcoef ▸ one_div_ne_zero ha
  obtain ⟨b, hb, -⟩ := exists_resolve? hne.symm ha'
  refine ⟨b, hb, ?_, fun x => ?_⟩
  · rw [constant_of_resolve? hne.symm ha' hb,
      constant_of_resolve? hne ha hd, hcoef]
    field_simp
  · rw [get?_of_resolve? hl' ha' hb x, hcells x, hcoef]
    by_cases hlx : leaving = x
    · rw [if_pos hlx, ← hlx, get?_eq_none_iff.2 hl]
    · rw [if_neg hlx]
      by_cases hex : entering = x
      · rw [if_pos hex, ← hex, get?_of_coefficient_ne ha, one_div_one_div]
      · -- The two factors cancel in all other cells.
        rw [if_neg hex, if_neg hex, if_neg hlx, Option.map_map]
        have hid : ((· * (-1 / (1 / r.coefficient entering)))
            ∘ (· * (-1 / r.coefficient entering))) = id := by
          funext c
          show c * _ * _ = c
          field_simp
        rw [hid, Option.map_id]
        rfl

-- ===================================================== all operations

/-- What the operations on rows mean, for all rows and under every
valuation. Adding a multiple of a symbol or a row adds that multiple of
its value. Substituting keeps the value where the symbol has that of its
definition. Solving and turning around succeed where the symbol has a
coefficient, and keep the solutions; turning back restores a row without
the symbol that it defines. None of them ever stores a zero. -/
theorem operations_keep_equations (v : Symbol → Rat) (r other : Row Rat)
    (s : Symbol) :
    (∀ k, (r.addCell s k).value v = r.value v + k * v s
      ∧ (r.addRow other k).value v = r.value v + k * other.value v)
    ∧ (v s = other.value v →
        (r.substitute s other).value v = r.value v)
    ∧ (s ∉ other.symbols → s ∉ (r.substitute s other).symbols)
    ∧ (r.coefficient s ≠ 0 → ∃ d, r.isolate? s = some d
        ∧ s ∉ d.symbols ∧ (r.value v = 0 ↔ v s = d.value v))
    ∧ (∀ l, l ≠ s → r.coefficient s ≠ 0 →
        ∃ d, r.resolve? l s = some d
          ∧ (v l = r.value v ↔ v s = d.value v)
          ∧ (l ∉ r.symbols → ∃ b, d.resolve? s l = some b
            ∧ b.constant = r.constant
            ∧ ∀ x, b.cells.get? x = r.cells.get? x))
    ∧ (r.Reduced →
        (∀ k, (r.addCell s k).Reduced ∧ (r.addRow other k).Reduced)
        ∧ (r.substitute s other).Reduced
        ∧ (∀ d, r.isolate? s = some d → d.Reduced)
        ∧ ∀ l d, r.resolve? l s = some d → d.Reduced) := by
  refine ⟨fun k => ⟨value_addCell r s k v, ?_⟩, value_substitute_of_eq r,
    fun hs => not_mem_symbols_substitute hs r, fun ha => ?_,
    fun l hne ha => ?_, fun h => ?_⟩
  · rw [value_addRow, mul_comm]
  · obtain ⟨d, hd, hs, hv⟩ := exists_isolate? ha
    exact ⟨d, hd, hs, hv v⟩
  · obtain ⟨d, hd, hv⟩ := exists_resolve? hne ha
    exact ⟨d, hd, hv v, fun hl => get?_of_resolve?_resolve? hne hl ha hd⟩
  · exact ⟨fun k => ⟨h.addCell s k, h.addRow other k⟩,
      h.substitute s other, fun _ hd => h.isolate? hd,
      fun _ _ hd => h.resolve? hd⟩

/-- The row `1 + 2 x + 3 y - 12 z`, with `x`, `y` and `z` the slacks of the
numbers 0, 1 and 2. -/
private def sample : Row Rat :=
  (((ofConstant 1).addCell ⟨.slack, 0⟩ 2).addCell ⟨.slack, 1⟩ 3).addCell
    ⟨.slack, 2⟩ (-12)

/-- The definition `4 + 5 y + 6 z` of `x`. -/
private def sampleDefinition : Row Rat :=
  ((ofConstant 4).addCell ⟨.slack, 1⟩ 5).addCell ⟨.slack, 2⟩ 6

/-- A valuation that agrees with the definition: `x` is 15, all other
symbols are 1. -/
private def samplePoint (s : Symbol) : Rat :=
  if s = ⟨.slack, 0⟩ then 15 else 1

/-- The row and the definition share `y` and `z`. Replacing `x` by its
definition, or adding that twice, adds up the cells of `y` and takes out
that of `z`, where the coefficients cancel. The row, as the definition of
another symbol `w`, is turned into one of `x` and back. -/
theorem sample_keeps_equations :
    ((sample.substitute ⟨.slack, 0⟩ sampleDefinition).value samplePoint = 22
      ∧ (sample.substitute ⟨.slack, 0⟩ sampleDefinition).cells.entries
          = [(⟨.slack, 1⟩, 13)]
      ∧ ⟨.slack, 0⟩
          ∉ (sample.substitute ⟨.slack, 0⟩ sampleDefinition).symbols
      ∧ (sample.substitute ⟨.slack, 0⟩ sampleDefinition).Reduced)
    ∧ ((sample.addRow sampleDefinition 2).value samplePoint = 52
      ∧ (sample.addRow sampleDefinition 2).cells.entries
          = [(⟨.slack, 0⟩, 2), (⟨.slack, 1⟩, 13)])
    ∧ (∃ d, sample.isolate? ⟨.slack, 0⟩ = some d ∧ ⟨.slack, 0⟩ ∉ d.symbols)
    ∧ ∃ d b, sample.resolve? ⟨.slack, 3⟩ ⟨.slack, 0⟩ = some d
      ∧ d.resolve? ⟨.slack, 0⟩ ⟨.slack, 3⟩ = some b
      ∧ b.constant = 1 ∧ b.coefficient ⟨.slack, 2⟩ = -12 := by
  obtain ⟨hadd, hsub, hrid, hsolve, hturn, hreduced⟩ :=
    operations_keep_equations samplePoint sample sampleDefinition
      ⟨.slack, 0⟩
  have hx : sample.coefficient ⟨.slack, 0⟩ ≠ 0 := by decide +kernel
  refine ⟨⟨?_, ?_, ?_, ?_⟩, ⟨?_, ?_⟩, ?_, ?_⟩
  · exact (hsub (by decide +kernel)).trans (by decide +kernel)
  · decide +kernel
  · exact hrid (by decide +kernel)
  · refine (hreduced ?_).2.1
    exact (((reduced_ofConstant 1).addCell _ _).addCell _ _).addCell _ _
  · exact (hadd 2).2.trans (by decide +kernel)
  · decide +kernel
  · obtain ⟨d, hd, hout, -⟩ := hsolve hx
    exact ⟨d, hd, hout⟩
  · obtain ⟨d, hd, -, hback⟩ := hturn ⟨.slack, 3⟩ (by decide) hx
    obtain ⟨b, hb, hconstant, hcells⟩ := hback (by decide +kernel)
    refine ⟨d, b, hd, hb, hconstant.trans (by decide +kernel), ?_⟩
    exact coefficient_of_get?
      ((hcells ⟨.slack, 2⟩).trans (by decide +kernel))

end LinearConstraints.Row
