/-
Custody: which symbols a solver holds, and whom they belong to.

A solver gives out symbols by number and never takes one back. Those of a
variable or a registered constraint belong to it alone; an artificial
symbol belongs to nobody, and once its search is over nothing holds it any
more. This is so after every command, however it ended: an operation that
fails half way leaves the tableau where it was, or as tidy as it was.

# Sides

Variables and constraints may be divided in two, and the symbols with
them, as long as each command is about one of the two sides. A new symbol
is of the side that the command is about.

Main statements: `Tidy.perform`, one command; `Traced.tidy`, every state
that commands lead to.
-/
import LinearConstraints.Proofs.Balance
import LinearConstraints.Proofs.Tidy
import LinearConstraints.Solver.Run

namespace LinearConstraints

variable {α : Type}

-- =============================================================== sides

/-- A division of symbols, variables and constraints in two. Symbols and
constraints are told by their numbers. -/
structure Sides where
  ofSymbol : ℕ → Bool
  ofVariable : Variable → Bool
  ofConstraint : ℕ → Bool

/-- The division that has everything on one side. -/
def Sides.whole : Sides := ⟨fun _ => true, fun _ => true, fun _ => true⟩

/-- Puts the numbers from `n` on on one side. -/
def Sides.assign (d : Sides) (n : ℕ) (κ : Bool) : Sides :=
  { d with ofSymbol := fun i => if i < n then d.ofSymbol i else κ }

/-- The constraint and all its variables are on one side. -/
def Constraint.On (d : Sides) (κ : Bool) (c : Constraint α) : Prop :=
  d.ofConstraint c.id = κ
    ∧ ∀ v ∈ c.expression.vars, d.ofVariable v = κ

/-- The command is about one side. -/
def Command.On (d : Sides) (κ : Bool) : Command α → Prop
  | .add c => c.On d κ
  | .remove c => d.ofConstraint c.id = κ
  | .addEdit id v _ => d.ofConstraint id = κ ∧ d.ofVariable v = κ
  | .removeEdit v => d.ofVariable v = κ
  | .suggest v _ => d.ofVariable v = κ
  | .refresh => True
  | .reset => True

/-- Everything is on the one side that there is. -/
theorem Command.on_whole (c : Command α) : c.On .whole true := by
  cases c with
  | add c => exact ⟨rfl, fun _ _ => rfl⟩
  | addEdit id v strength => exact ⟨rfl, rfl⟩
  | remove | removeEdit | suggest => exact rfl
  | refresh | reset => exact trivial

namespace Solver

-- ============================================================ custody

section Custody

variable {s s' : Solver α} {d d' : Sides} {κ : Bool} {arts : List Symbol}

/-- The symbols given out, but for those that are done with. -/
def given (s : Solver α) (arts : List Symbol) : Set Symbol :=
  {x | x.id < s.nextId ∧ ∀ a ∈ arts, a.id ≠ x.id}

/-- The tableau is tidy, and holds no symbol but those in use; each
variable and each registered constraint has symbols of its own, on its
side; and constraints are registered under their numbers. -/
structure Tidy (d : Sides) (arts : List Symbol) (s : Solver α) : Prop where
  past : ∀ a ∈ arts, a.id < s.nextId
  tableau : s.tableau.Tidy d.ofSymbol (s.given arts)
  auxiliary : s.tableau.auxiliary = none
  bound : ∀ {v b}, s.bindings.get? v = some b →
    b.symbol ∈ s.given arts ∧ d.ofSymbol b.symbol.id = d.ofVariable v
  injective : ∀ {v w b c}, s.bindings.get? v = some b →
    s.bindings.get? w = some c → b.symbol.id = c.symbol.id → v = w
  owned : ∀ {i g x}, s.registry.get? i = some g → g.footprint.Mentions x →
    x ∈ s.given arts ∧ d.ofSymbol x.id = d.ofConstraint i
  disjoint : ∀ {i j g h x y}, s.registry.get? i = some g →
    s.registry.get? j = some h → g.footprint.Mentions x →
    h.footprint.Mentions y → x.id = y.id → i = j
  apart : ∀ {v b i g x}, s.bindings.get? v = some b →
    s.registry.get? i = some g → g.footprint.Mentions x →
    b.symbol.id ≠ x.id
  numbered : ∀ i g, s.registry.get? i = some g → g.constraint.id = i
  edited : ∀ {v e}, s.edits.get? v = some e →
    d.ofConstraint e.constraint.constraint.id = d.ofVariable v
      ∧ ∀ x, e.footprint.Mentions x →
        x ∈ s.given arts ∧ d.ofSymbol x.id = d.ofVariable v

/-- The next symbol is in use once it has been given out. -/
theorem given_subset {n : ℕ} (hn : s.nextId ≤ n) :
    s.given arts ⊆ ({ s with nextId := n } : Solver α).given arts :=
  fun _ hx => ⟨hx.1.trans_le hn, hx.2⟩

/-- A symbol that is given out and done with at once is not in use. -/
theorem given_retire {a : Symbol} (ha : a.id = s.nextId) :
    ({ s with nextId := s.nextId + 1 } : Solver α).given (a :: arts)
      = s.given arts := by
  ext x
  show (x.id < s.nextId + 1 ∧ ∀ b ∈ a :: arts, b.id ≠ x.id)
    ↔ x.id < s.nextId ∧ ∀ b ∈ arts, b.id ≠ x.id
  rw [List.forall_mem_cons, ha]
  refine ⟨fun hx => ⟨?_, hx.2.2⟩, fun hx => ⟨?_, ?_, hx.2⟩⟩ <;> omega

namespace Tidy

/-- Giving out more numbers does no harm. -/
theorem raise (h : s.Tidy d arts) {n : ℕ} (hn : s.nextId ≤ n) :
    ({ s with nextId := n } : Solver α).Tidy d arts where
  past := fun a ha => (h.past a ha).trans_le hn
  tableau := h.tableau.mono (given_subset hn)
  auxiliary := h.auxiliary
  bound := fun hb => ⟨given_subset hn (h.bound hb).1, (h.bound hb).2⟩
  injective := h.injective
  owned := fun hg hx => ⟨given_subset hn (h.owned hg hx).1,
    (h.owned hg hx).2⟩
  disjoint := h.disjoint
  apart := h.apart
  numbered := h.numbered
  edited := fun he => ⟨(h.edited he).1, fun x hx =>
    ⟨given_subset hn ((h.edited he).2 x hx).1, ((h.edited he).2 x hx).2⟩⟩

/-- A tableau in the same symbols takes the place of the one there is. -/
theorem withTableau (h : s.Tidy d arts) {t : Tableau α}
    (ht : t.Tidy d.ofSymbol (s.given arts)) (haux : t.auxiliary = none) :
    ({ s with tableau := t } : Solver α).Tidy d arts :=
  { h with tableau := ht, auxiliary := haux }

/-- The next symbol is retired before it has been used. -/
theorem retire (h : s.Tidy d arts) {a : Symbol} (ha : a.id = s.nextId) :
    ({ s with nextId := s.nextId + 1 } : Solver α).Tidy d (a :: arts) := by
  have hup := h.raise (Nat.le_succ s.nextId)
  refine { hup with
    past := ?_, tableau := ?_, bound := ?_, owned := ?_, edited := ?_ }
  · intro b hb
    rcases List.mem_cons.1 hb with rfl | hb
    · show b.id < s.nextId + 1
      omega
    · exact hup.past b hb
  · rw [given_retire ha]
    exact h.tableau
  · rw [given_retire ha]
    exact h.bound
  · rw [given_retire ha]
    exact h.owned
  · rw [given_retire ha]
    exact h.edited

/-- Only the sides of symbols that have been given out count. -/
theorem assign (h : s.Tidy d arts) (κ : Bool) :
    s.Tidy (d.assign s.nextId κ) arts := by
  have hold : ∀ x ∈ s.given arts,
      (d.assign s.nextId κ).ofSymbol x.id = d.ofSymbol x.id :=
    fun x hx => if_pos hx.1
  refine { h with tableau := ?_, bound := ?_, owned := ?_, edited := ?_ }
  · refine { h.tableau with row := fun {b r} hr x hx => ?_ }
    obtain ⟨hfree, hside⟩ := h.tableau.row hr x hx
    rw [hold x hfree.1, hold b (h.tableau.basic hr)]
    exact ⟨hfree, hside⟩
  · intro v b hb
    obtain ⟨hin, hside⟩ := h.bound hb
    rw [hold _ hin]
    exact ⟨hin, hside⟩
  · intro i g x hg hx
    obtain ⟨hin, hside⟩ := h.owned hg hx
    rw [hold x hin]
    exact ⟨hin, hside⟩
  · intro v e he
    refine ⟨(h.edited he).1, fun x hx => ?_⟩
    obtain ⟨hin, hside⟩ := (h.edited he).2 x hx
    rw [hold x hin]
    exact ⟨hin, hside⟩

-- ------------------------------------------------- registry and edits

/-- The symbols of a constraint may be registered if nobody has them. -/
theorem register (h : s.Tidy d arts) {c : Constraint α} {f : Footprint}
    (hf : ∀ x, f.Mentions x →
      x ∈ s.given arts ∧ d.ofSymbol x.id = d.ofConstraint c.id)
    (hown : ∀ {i g x y}, s.registry.get? i = some g →
      g.footprint.Mentions x → f.Mentions y → x.id ≠ y.id)
    (hvar : ∀ {v b x}, s.bindings.get? v = some b → f.Mentions x →
      b.symbol.id ≠ x.id) :
    ({ s with registry := s.registry.insert c.id ⟨c, f⟩ } :
      Solver α).Tidy d arts := by
  have hget : ∀ {i g}, (s.registry.insert c.id ⟨c, f⟩).get? i = some g →
      c.id = i ∧ g = ⟨c, f⟩ ∨ s.registry.get? i = some g := by
    intro i g hg
    rw [Table.get?_insert] at hg
    split at hg
    case isTrue heq => exact Or.inl ⟨heq, (Option.some.inj hg).symm⟩
    · exact Or.inr hg
  refine { h with owned := ?_, disjoint := ?_, apart := ?_, numbered := ?_ }
  · intro i g x hg hx
    rcases hget hg with ⟨rfl, rfl⟩ | hg
    · exact hf x hx
    · exact h.owned hg hx
  · intro i j g k x y hg hk hx hy hid
    rcases hget hg with ⟨rfl, rfl⟩ | hg <;>
      rcases hget hk with ⟨rfl, rfl⟩ | hk
    · rfl
    · exact absurd hid.symm (hown hk hy hx)
    · exact absurd hid (hown hg hx hy)
    · exact h.disjoint hg hk hx hy hid
  · intro v b i g x hb hg hx
    rcases hget hg with ⟨rfl, rfl⟩ | hg
    · exact hvar hb hx
    · exact h.apart hb hg hx
  · intro i g hg
    rcases hget hg with ⟨rfl, rfl⟩ | hg
    · rfl
    · exact h.numbered i g hg

/-- Forgetting a constraint gives up its symbols. -/
theorem unregister (h : s.Tidy d arts) (i : ℕ) :
    ({ s with registry := s.registry.erase i } : Solver α).Tidy d arts := by
  have hget : ∀ {j g}, (s.registry.erase i).get? j = some g →
      s.registry.get? j = some g := by
    intro j g hg
    rw [Table.get?_erase] at hg
    split at hg
    · cases hg
    · exact hg
  exact { h with
    owned := fun hg hx => h.owned (hget hg) hx
    disjoint := fun hg hk => h.disjoint (hget hg) (hget hk)
    apart := fun hb hg => h.apart hb (hget hg)
    numbered := fun i g hg => h.numbered i g (hget hg) }

theorem setEdit (h : s.Tidy d arts) {v : Variable} {e : Edit α}
    (hid : d.ofConstraint e.constraint.constraint.id = d.ofVariable v)
    (he : ∀ x, e.footprint.Mentions x →
      x ∈ s.given arts ∧ d.ofSymbol x.id = d.ofVariable v) :
    ({ s with edits := s.edits.insert v e } : Solver α).Tidy d arts := by
  refine { h with edited := fun {w k} hk => ?_ }
  dsimp only at hk
  rw [Table.get?_insert] at hk
  split at hk
  case isTrue heq =>
    obtain rfl := Option.some.inj hk
    exact heq ▸ ⟨hid, he⟩
  · exact h.edited hk

theorem eraseEdit (h : s.Tidy d arts) (v : Variable) :
    ({ s with edits := s.edits.erase v } : Solver α).Tidy d arts := by
  refine { h with edited := fun {w k} hk => ?_ }
  dsimp only at hk
  rw [Table.get?_erase] at hk
  split at hk
  · cases hk
  · exact h.edited hk

/-- Copying values leaves the symbols of the variables. -/
theorem refresh [Scalar α] (h : s.Tidy d arts) :
    s.refresh.Tidy d arts := by
  have hget : ∀ {v b}, s.refresh.bindings.get? v = some b →
      ∃ b₀, s.bindings.get? v = some b₀ ∧ b.symbol = b₀.symbol := by
    intro v b hb
    rw [show s.refresh.bindings.get? v = (s.bindings.get? v).map _ from
      Table.get?_map ..] at hb
    obtain ⟨b₀, h₀, rfl⟩ := Option.map_eq_some_iff.1 hb
    exact ⟨b₀, h₀, rfl⟩
  refine { h with bound := ?_, injective := ?_, apart := ?_ }
  · intro v b hb
    obtain ⟨b₀, h₀, heq⟩ := hget hb
    exact heq ▸ h.bound h₀
  · intro v w b c hb hc hid
    obtain ⟨b₀, h₀, heq⟩ := hget hb
    obtain ⟨c₀, hc₀, heq'⟩ := hget hc
    exact h.injective h₀ hc₀ (by rw [← heq, ← heq', hid])
  · intro v b i g x hb hg hx
    obtain ⟨b₀, h₀, heq⟩ := hget hb
    exact heq ▸ h.apart h₀ hg hx

/-- A new symbol is in use and not basic. -/
theorem nonBasic_fresh (h : s.Tidy d arts) (k : Symbol.Kind) :
    (s.fresh k).2.tableau.NonBasic ((s.fresh k).2.given arts)
      (s.fresh k).1 := by
  refine ⟨⟨Nat.lt_succ_self _, fun a ha => (h.past a ha).ne⟩, ?_⟩
  show s.tableau.rows.get? _ = none
  exact h.tableau.get?_of_not_mem fun hx => lt_irrefl _ hx.1

theorem fresh (h : s.Tidy d arts) (k : Symbol.Kind) :
    (s.fresh k).2.Tidy d arts := h.raise (Nat.le_succ _)

/-- Binding a variable of the side to the next symbol. -/
theorem bind (h : s.Tidy d arts) {v : Variable}
    (hv : d.ofSymbol s.nextId = d.ofVariable v) (value : α) :
    ({ (s.fresh .external).2 with
        bindings := s.bindings.insert v ⟨⟨.external, s.nextId⟩, value⟩ } :
      Solver α).Tidy d arts := by
  have hself := (h.nonBasic_fresh .external).1
  -- What is bound was given out before.
  have hlt : ∀ {w c}, s.bindings.get? w = some c →
      c.symbol.id < s.nextId := fun hc => (h.bound hc).1.1
  have hget : ∀ {w c}, (s.bindings.insert v
        ⟨⟨.external, s.nextId⟩, value⟩).get? w = some c →
      v = w ∧ c.symbol = ⟨.external, s.nextId⟩
        ∨ s.bindings.get? w = some c := by
    intro w c hc
    rw [Table.get?_insert] at hc
    split at hc
    case isTrue heq =>
      obtain rfl := Option.some.inj hc
      exact Or.inl ⟨heq, rfl⟩
    · exact Or.inr hc
  refine { h.fresh .external with
    bound := fun {w c} hc => ?_
    injective := fun {w w' c c'} hc hc' hid => ?_
    apart := fun {w c i g x} hc hg hx => ?_ }
  · rcases hget hc with ⟨rfl, heq⟩ | hc
    · rw [heq]
      exact ⟨hself, hv⟩
    · exact (h.fresh .external).bound hc
  · rcases hget hc with ⟨rfl, heq⟩ | hc <;>
      rcases hget hc' with ⟨rfl, heq'⟩ | hc'
    · rfl
    · rw [heq] at hid
      exact absurd hid.symm (hlt hc').ne
    · rw [heq'] at hid
      exact absurd hid (hlt hc).ne
    · exact h.injective hc hc' hid
  · rcases hget hc with ⟨rfl, heq⟩ | hc
    · rw [heq]
      exact (h.owned hg hx).1.1.ne'
    · exact h.apart hc hg hx

end Tidy

end Custody

-- ======================================================= the equation

variable [Scalar α] {s : Solver α} {d : Sides} {κ : Bool}
  {arts : List Symbol} {n : ℕ} {r : Row α}

theorem tidy_empty (d : Sides) : (empty : Solver α).Tidy d [] where
  past := fun _ ha => absurd ha List.not_mem_nil
  tableau := ⟨fun h => (by cases h), fun h => (by cases h),
    .ofConstant 0, fun h => by cases h⟩
  auxiliary := rfl
  bound := fun h => by cases h
  injective := fun h => by cases h
  owned := fun h => by cases h
  disjoint := fun h => by cases h
  apart := fun h => by cases h
  numbered := fun _ _ h => by cases h
  edited := fun h => by cases h

/-- A row in symbols of one side that are not basic, while the solver has
at least `n` numbers given out, all numbers from `n` on being of that
side. -/
structure Drafted (d : Sides) (κ : Bool) (arts : List Symbol) (n : ℕ)
    (p : Row α × Solver α) : Prop where
  tidy : p.2.Tidy d arts
  row : p.1.Within fun x =>
    p.2.tableau.NonBasic (p.2.given arts) x ∧ d.ofSymbol x.id = κ
  later : n ≤ p.2.nextId

namespace Tidy

/-- The weight of a symbol in use that is not basic. -/
theorem penalise (h : s.Tidy d arts) {x : Symbol} (weight : α)
    (hx : s.tableau.NonBasic (s.given arts) x) :
    (s.penalise x weight).Tidy d arts :=
  h.withTableau
    { h.tableau with objective := h.tableau.objective.addCell hx weight }
    h.auxiliary

end Tidy

namespace Drafted

/-- The symbol of a variable, and the row as it was. -/
theorem symbolOf (h : Drafted d κ arts n (r, s))
    (hnew : ∀ i, n ≤ i → d.ofSymbol i = κ) {v : Variable}
    (hv : d.ofVariable v = κ) :
    Drafted d κ arts n (r, (s.symbolOf v).2)
      ∧ (s.symbolOf v).1 ∈ (s.symbolOf v).2.given arts
      ∧ d.ofSymbol (s.symbolOf v).1.id = κ := by
  unfold Solver.symbolOf
  cases hb : s.bindings.get? v with
  | some b =>
      obtain ⟨hin, hside⟩ := h.tidy.bound hb
      exact ⟨h, hin, hside.trans hv⟩
  | none =>
      have hself := (h.tidy.nonBasic_fresh .external).1
      have hside : d.ofSymbol s.nextId = κ := hnew _ h.later
      exact ⟨⟨h.tidy.bind (hside.trans hv.symm) 0, h.row.mono fun x hx =>
          ⟨hx.1.mono (given_subset (Nat.le_succ _)), hx.2⟩,
        h.later.trans (Nat.le_succ _)⟩, hself, hside⟩

/-- Adding a symbol of the side, or what defines it. -/
theorem addSymbol (h : Drafted d κ arts n (r, s)) {x : Symbol}
    (hx : x ∈ s.given arts) (hside : d.ofSymbol x.id = κ) (k : α) :
    Drafted d κ arts n (s.tableau.addSymbol r x k, s) := by
  refine ⟨h.tidy, ?_, h.later⟩
  show (s.tableau.addSymbol r x k).Within _
  unfold Tableau.addSymbol
  split
  case h_1 definition hrow =>
    refine h.row.addRow ((h.tidy.tableau.row hrow).mono fun y hy => ?_) k
    exact ⟨hy.1, hy.2.trans hside⟩
  case h_2 hnone => exact h.row.addCell ⟨⟨hx, hnone⟩, hside⟩ k

theorem addTerm (h : Drafted d κ arts n (r, s))
    (hnew : ∀ i, n ≤ i → d.ofSymbol i = κ) {term : Term α}
    (hv : d.ofVariable term.var = κ) :
    Drafted d κ arts n (addTerm (r, s) term) := by
  unfold Solver.addTerm
  split
  · exact h
  · obtain ⟨hnext, hin, hside⟩ := h.symbolOf hnew hv
    exact hnext.addSymbol hin hside _

end Drafted

theorem Tidy.rowOf (h : s.Tidy d arts) {e : Expression α}
    (hnew : ∀ i, s.nextId ≤ i → d.ofSymbol i = κ)
    (he : ∀ v ∈ e.vars, d.ofVariable v = κ) :
    Drafted d κ arts s.nextId (s.rowOf e) := by
  have key : ∀ (terms : List (Term α)) (p : Row α × Solver α),
      (∀ v ∈ terms.map Term.var, d.ofVariable v = κ) →
      Drafted d κ arts s.nextId p →
      Drafted d κ arts s.nextId (terms.foldl Solver.addTerm p) := by
    intro terms
    induction terms with
    | nil => exact fun _ _ hp => hp
    | cons term terms ih =>
        intro p hvars hp
        obtain ⟨hv, hvars⟩ := List.forall_mem_cons.1 hvars
        exact ih _ hvars (hp.addTerm hnew hv)
  exact key e.terms _ he ⟨h, .ofConstant _, le_refl _⟩

/-- The symbols of a footprint are in use, on one side, and nobody has
them. -/
structure Unclaimed (d : Sides) (κ : Bool) (arts : List Symbol)
    (f : Footprint) (s : Solver α) : Prop where
  given : ∀ x, f.Mentions x → x ∈ s.given arts ∧ d.ofSymbol x.id = κ
  unowned : ∀ {i g x y}, s.registry.get? i = some g →
    g.footprint.Mentions x → f.Mentions y → x.id ≠ y.id
  unbound : ∀ {v b x}, s.bindings.get? v = some b → f.Mentions x →
    b.symbol.id ≠ x.id

/-- A row to be set to zero, and the symbols of its constraint. -/
structure Posed (d : Sides) (κ : Bool) (arts : List Symbol) (n : ℕ)
    (r : Row α) (f : Footprint) (s : Solver α) : Prop where
  drafts : Drafted d κ arts n (r, s)
  unclaimed : Unclaimed d κ arts f s

namespace Drafted

omit [Scalar α] in
/-- The symbols made since a draft belong to nobody. -/
private theorem posed {s' : Solver α} {r' : Row α} {f : Footprint}
    (h : Drafted d κ arts n (r, s))
    (hnew : ∀ i, n ≤ i → d.ofSymbol i = κ)
    (hregistry : s'.registry = s.registry)
    (hbindings : s'.bindings = s.bindings)
    (h' : Drafted d κ arts n (r', s'))
    (hf : ∀ x, f.Mentions x → s.nextId ≤ x.id ∧ x.id < s'.nextId) :
    Posed d κ arts n r' f s' := by
  refine ⟨h', fun x hx => ⟨⟨(hf x hx).2, fun a ha => ?_⟩, ?_⟩,
    fun {i g x y} hg hx hy => ?_, fun {v b x} hb hx => ?_⟩
  · exact ((h.tidy.past a ha).trans_le (hf x hx).1).ne
  · exact hnew _ (h.later.trans (hf x hx).1)
  · rw [hregistry] at hg
    exact ((h.tidy.owned hg hx).1.1.trans_le (hf y hy).1).ne
  · rw [hbindings] at hb
    exact ((h.tidy.bound hb).1.1.trans_le (hf x hx).1).ne

/-- A new symbol with a coefficient. -/
theorem freshCell (h : Drafted d κ arts n (r, s))
    (hnew : ∀ i, n ≤ i → d.ofSymbol i = κ) (k : Symbol.Kind) (a : α) :
    Drafted d κ arts n (r.addCell (s.fresh k).1 a, (s.fresh k).2) where
  tidy := h.tidy.fresh k
  row := by
    refine (h.row.mono fun x hx => ?_).addCell
      ⟨h.tidy.nonBasic_fresh k, hnew _ h.later⟩ a
    exact ⟨hx.1.mono (given_subset (Nat.le_succ _)), hx.2⟩
  later := h.later.trans (Nat.le_succ _)

/-- Weighing a symbol that is not basic. -/
theorem weigh (h : Drafted d κ arts n (r, s)) {x : Symbol}
    (weight : α) (hx : s.tableau.NonBasic (s.given arts) x) :
    Drafted d κ arts n (r, s.penalise x weight) :=
  ⟨h.tidy.penalise weight hx, h.row, h.later⟩

theorem closeInequality (h : Drafted d κ arts n (r, s))
    (hnew : ∀ i, n ≤ i → d.ofSymbol i = κ) (sign : α)
    (strength : Strength α) :
    Posed d κ arts n (s.closeInequality r sign strength).1
      (s.closeInequality r sign strength).2.1
      (s.closeInequality r sign strength).2.2 := by
  have hslack := h.freshCell hnew .slack sign
  unfold Solver.closeInequality
  by_cases hreq : strength.isRequired = true
  · simp only [if_pos hreq]
    refine h.posed hnew rfl rfl hslack fun x hx => ?_
    rcases hx with rfl | hx
    · exact ⟨le_refl _, Nat.lt_succ_self _⟩
    · cases hx
  · simp only [if_neg hreq]
    have herror := hslack.freshCell hnew .error (-sign)
    refine h.posed hnew rfl rfl (herror.weigh strength.value
      (hslack.tidy.nonBasic_fresh .error)) fun x hx => ?_
    rcases hx with rfl | hx
    · exact ⟨le_refl _, Nat.lt_succ_of_lt (Nat.lt_succ_self _)⟩
    · obtain rfl := Option.some.inj hx
      exact ⟨Nat.le_succ _, Nat.lt_succ_self _⟩

theorem closeEquality (h : Drafted d κ arts n (r, s))
    (hnew : ∀ i, n ≤ i → d.ofSymbol i = κ) (strength : Strength α) :
    Posed d κ arts n (s.closeEquality r strength).1
      (s.closeEquality r strength).2.1
      (s.closeEquality r strength).2.2 := by
  unfold Solver.closeEquality
  by_cases hreq : strength.isRequired = true
  · simp only [if_pos hreq]
    refine h.posed hnew rfl rfl (h.freshCell hnew .dummy 1) fun x hx => ?_
    rcases hx with rfl | hx
    · exact ⟨le_refl _, Nat.lt_succ_self _⟩
    · cases hx
  · simp only [if_neg hreq]
    have habove := h.freshCell hnew .error (-1)
    have hbelow := habove.freshCell hnew .error 1
    have hfirst := (h.tidy.nonBasic_fresh .error).mono
      (given_subset (Nat.le_succ (s.fresh .error).2.nextId))
    have hweighed := (hbelow.weigh strength.value hfirst).weigh
      strength.value (habove.tidy.nonBasic_fresh .error)
    refine h.posed hnew rfl rfl hweighed fun x hx => ?_
    rcases hx with rfl | hx
    · exact ⟨le_refl _, Nat.lt_succ_of_lt (Nat.lt_succ_self _)⟩
    · obtain rfl := Option.some.inj hx
      exact ⟨Nat.le_succ _, Nat.lt_succ_self _⟩

end Drafted

/-- Turning a row changes no symbol. -/
private theorem Posed.turned {f : Footprint} (h : Posed d κ arts n r f s) :
    Posed d κ arts n (if r.constant < 0 then r.negated else r) f s where
  drafts := by
    refine ⟨h.drafts.tidy, ?_, h.drafts.later⟩
    show Row.Within (if _ then _ else _) _
    split
    · exact h.drafts.row.negated
    · exact h.drafts.row
  unclaimed := h.unclaimed

/-- Posing a constraint keeps a solver tidy. -/
theorem Tidy.equation (h : s.Tidy d arts) {c : Constraint α}
    (hnew : ∀ i, s.nextId ≤ i → d.ofSymbol i = κ) (hc : c.On d κ) :
    Posed d κ arts s.nextId (s.equation c).1 (s.equation c).2.1
      (s.equation c).2.2 := by
  have hrow := h.rowOf hnew hc.2
  unfold Solver.equation
  cases c.relation with
  | lessOrEqual => exact (hrow.closeInequality hnew 1 c.strength).turned
  | greaterOrEqual =>
      exact (hrow.closeInequality hnew (-1) c.strength).turned
  | equal => exact (hrow.closeEquality hnew c.strength).turned

-- ============================================================= adding

omit [Scalar α] in
/-- Work on the tableau that keeps it tidy. -/
theorem Tidy.onTableau {ρ : Type} (h : s.Tidy d arts)
    {o : Outcome (Tableau α) Tableau.Failure ρ}
    (ho : Tableau.Tidy.Steady d.ofSymbol (s.given arts) s.tableau o.state) :
    (s.onTableau o).state.Tidy d arts :=
  h.withTableau ho.1 (Tableau.Tidy.auxiliary_eq_none ho.2 h.auxiliary)

theorem Tidy.settle (h : s.Tidy d arts) (budget : ℕ) :
    (s.settle budget).state.Tidy d arts :=
  h.onTableau (h.tableau.minimise budget .main)

/-- The artificial symbol that a row needs: none if it can be solved at
once or mentions dummies only. -/
def searchSymbol? (s : Solver α) (r : Row α) (f : Footprint) :
    Option Symbol :=
  match pivotFor? r f with
  | some _ => none
  | none => if r.onlyDummies then none else some (s.fresh .slack).1

namespace Posed

variable {f : Footprint}

/-- Solving an equation for a symbol that it mentions. -/
theorem define (h : Posed d κ arts n r f s) (x : Symbol) :
    (s.define r x).state.Tidy d arts
      ∧ Unclaimed d κ arts f (s.define r x).state := by
  have htidy := h.drafts.tidy
  unfold Solver.define
  split
  case h_2 => exact ⟨htidy, h.unclaimed⟩
  case h_1 e he =>
    obtain ⟨hx, hdef⟩ := Row.isolate?_within he
    obtain ⟨hfree, hside⟩ := h.drafts.row x hx
    refine ⟨htidy.withTableau (htidy.tableau.install hfree ?_) ?_,
      h.unclaimed.given, h.unclaimed.unowned, h.unclaimed.unbound⟩
    · refine hdef.mono fun y hy => ?_
      obtain ⟨hyfree, hyside⟩ := h.drafts.row y hy.1
      exact ⟨⟨⟨hyfree.1, hy.2⟩, hyfree.2⟩, hyside.trans hside.symm⟩
    · show s.tableau.auxiliary.map _ = none
      rw [htidy.auxiliary]
      rfl

/-- Entering an equation retires its artificial symbol if there is one. -/
theorem enter (h : Posed d κ arts n r f s) (c : Constraint α)
    (hnew : ∀ i, n ≤ i → d.ofSymbol i = κ) (budget : ℕ) :
    (s.enter budget c r f).state.Tidy d
        ((s.searchSymbol? r f).toList ++ arts)
      ∧ Unclaimed d κ ((s.searchSymbol? r f).toList ++ arts) f
          (s.enter budget c r f).state := by
  unfold Solver.enter searchSymbol?
  cases pivotFor? r f with
  | some x => exact h.define x
  | none =>
      dsimp only
      split
      · split
        · exact h.define f.marker
        · exact ⟨h.drafts.tidy, h.unclaimed⟩
      · -- The artificial symbol is done with once the search is.
        have hretired := h.drafts.tidy.retire
          (a := (s.fresh .slack).1) rfl
        have hgiven : (s.fresh .slack).2.given ((s.fresh .slack).1 :: arts)
            = s.given arts := given_retire rfl
        have hside : d.ofSymbol (s.fresh .slack).1.id = κ :=
          hnew _ h.drafts.later
        have hart : (s.fresh .slack).1 ∉ s.given arts :=
          fun hmem => lt_irrefl _ hmem.1
        have hadjoin := h.drafts.tidy.tableau.adjoin h.drafts.tidy.auxiliary
          hart (h.drafts.row.mono fun x hx => ⟨hx.1, hx.2.trans hside.symm⟩)
          budget
        rw [← hgiven] at hadjoin
        have hlast := hretired.withTableau hadjoin.1 hadjoin.2
        have hclaim : Unclaimed d κ ((s.fresh .slack).1 :: arts) f
            { (s.fresh .slack).2 with
              tableau := (s.tableau.adjoin budget
                (s.fresh .slack).1 r).state } :=
          { h.unclaimed with
            given := fun x hx => hgiven ▸ h.unclaimed.given x hx }
        unfold Outcome.andThen
        dsimp only
        split
        case h_1 feasible _ => cases feasible <;> exact ⟨hlast, hclaim⟩
        case h_2 => exact ⟨hlast, hclaim⟩

end Posed

/-- The artificial symbol that adding a constraint makes. -/
def artificial? (s : Solver α) (c : Constraint α) : Option Symbol :=
  if s.contains c then none
  else
    let (r, f, s) := s.equation c
    s.searchSymbol? r f

namespace Tidy

/-- Registering a constraint gives its symbols to it. -/
theorem registers (h : s.Tidy d arts) {c : Constraint α}
    (hnew : ∀ i, s.nextId ≤ i → d.ofSymbol i = κ) (hc : c.On d κ)
    (budget : ℕ) :
    (s.register budget c).state.Tidy d ((s.artificial? c).toList ++ arts)
      ∧ ∀ f, (s.register budget c).result = .ok f →
        ∀ x, f.Mentions x →
          x ∈ (s.register budget c).state.given
              ((s.artificial? c).toList ++ arts)
            ∧ d.ofSymbol x.id = κ := by
  unfold Solver.register artificial?
  by_cases hcontains : s.contains c = true
  · rw [if_pos hcontains, if_pos hcontains]
    exact ⟨h, fun f hf => by cases hf⟩
  · rw [if_neg hcontains, if_neg hcontains]
    have hposed := h.equation hnew hc
    generalize s.equation c = q at hposed ⊢
    obtain ⟨r, f, s₁⟩ := q
    dsimp only at hposed ⊢
    obtain ⟨hentered, hclaim⟩ := hposed.enter c hnew budget
    generalize (s₁.searchSymbol? r f).toList ++ arts = arts'
      at hentered hclaim ⊢
    generalize s₁.enter budget c r f = o at hentered hclaim ⊢
    obtain ⟨s₂, res⟩ := o
    cases res with
    | error e => exact ⟨hentered, fun f hf => by cases hf⟩
    | ok _ =>
        have hregistered := hentered.register (c := c) (f := f)
          (fun x hx => ⟨(hclaim.given x hx).1,
            (hclaim.given x hx).2.trans hc.1.symm⟩)
          hclaim.unowned hclaim.unbound
        have hsettled := hregistered.settle budget
        rw [Outcome.andThen_of_ok rfl, Outcome.state_andThen_ok]
        refine ⟨hsettled, fun f' hf' => ?_⟩
        obtain ⟨-, -, rfl⟩ := Outcome.ok_of_andThen_ok hf'
        exact hclaim.given

theorem add (h : s.Tidy d arts) {c : Constraint α}
    (hnew : ∀ i, s.nextId ≤ i → d.ofSymbol i = κ) (hc : c.On d κ)
    (budget : ℕ) :
    (s.add budget c).state.Tidy d ((s.artificial? c).toList ++ arts) := by
  unfold Solver.add
  rw [Outcome.state_andThen_ok]
  exact (h.registers hnew hc budget).1

-- =========================================================== removing

/-- Taking a weight out of the objective. -/
theorem forgive (h : s.Tidy d arts) {g : Registration α}
    (hg : ∀ x, g.footprint.Mentions x → x ∈ s.given arts) :
    (s.forgive g).Tidy d arts := by
  unfold Solver.forgive
  split
  · exact h
  case h_2 x hx =>
    have hin : x ∈ s.given arts := hg x (Footprint.mentions_of_error? hx).1
    refine h.withTableau { h.tableau with objective := ?_ } h.auxiliary
    show (s.tableau.addSymbol _ x _).Within _
    unfold Tableau.addSymbol
    split
    case h_1 definition hrow =>
      exact h.tableau.objective.addRow
        ((h.tableau.row hrow).mono fun y hy => hy.1) _
    case h_2 hnone => exact h.tableau.objective.addCell ⟨hin, hnone⟩ _

/-- Removing a constraint leaves its symbols to nobody. -/
theorem remove (h : s.Tidy d arts) (c : Constraint α) (budget : ℕ) :
    (s.remove budget c).state.Tidy d arts := by
  unfold Solver.remove
  cases hg : s.registry.get? c.id with
  | none => exact h
  | some g =>
      have hforgiven := (h.unregister c.id).forgive (g := g)
        fun x hx => (h.owned hg hx).1
      dsimp only
      split
      · exact hforgiven
      case h_2 t ht =>
        obtain ⟨htidy, haux⟩ := hforgiven.tableau.dropMarker ht
        exact (hforgiven.withTableau htidy
          (Tableau.Tidy.auxiliary_eq_none haux hforgiven.auxiliary)).settle
          budget

-- =============================================================== edits

theorem removeEdit (h : s.Tidy d arts) (v : Variable) (budget : ℕ) :
    (s.removeEdit budget v).state.Tidy d arts := by
  unfold Solver.removeEdit
  split
  · exact h
  case h_2 e _ =>
    have hremoved := h.remove e.constraint.constraint budget
    unfold Outcome.andThen
    split
    · exact hremoved.eraseEdit v
    · exact hremoved

theorem suggest (h : s.Tidy d arts) (v : Variable) (x : α) (budget : ℕ) :
    (s.suggest budget v x).state.Tidy d arts := by
  unfold Solver.suggest
  split
  · exact h
  case h_2 e he =>
    obtain ⟨hid, hfoot⟩ := h.edited he
    have hedit := h.setEdit (v := v)
      (e := { e with constraint := e.constraint.suggest x }) hid hfoot
    obtain ⟨hmoved, haux⟩ := h.tableau.moveTarget e.footprint
      (x - e.constraint.target)
    obtain ⟨hrestored, haux'⟩ := hmoved.restore budget
    exact hedit.onTableau ⟨hrestored, haux'.trans haux⟩

end Tidy

/-- The artificial symbols that a command makes, of which there is one at
most. -/
def artificials (s : Solver α) : Command α → List Symbol
  | .add c => (s.artificial? c).toList
  | .addEdit id v strength =>
      if s.isEdited v || strength.clip.isRequired then []
      else (s.artificial? (EditConstraint.new id v strength).constraint).toList
  | _ => []

/-- The artificial symbols made so far, once a command has been carried
out. A reset begins anew. -/
def retired (s : Solver α) (arts : List Symbol) : Command α → List Symbol
  | .reset => []
  | c => s.artificials c ++ arts

/-- The edit constraint of a variable mentions that variable only. -/
theorem on_edit {id : ℕ} {v : Variable} (strength : Strength α)
    (hid : d.ofConstraint id = κ) (hv : d.ofVariable v = κ) :
    (EditConstraint.new id v strength).constraint.On d κ := by
  refine ⟨hid, fun w hw => ?_⟩
  obtain rfl := List.mem_singleton.1
    (show w ∈ [v] from hw)
  exact hv

namespace Tidy

theorem addEdit (h : s.Tidy d arts) {id : ℕ} {v : Variable}
    {strength : Strength α} (hnew : ∀ i, s.nextId ≤ i → d.ofSymbol i = κ)
    (hid : d.ofConstraint id = κ) (hv : d.ofVariable v = κ) (budget : ℕ) :
    (s.addEdit budget id v strength).state.Tidy d
      (s.artificials (.addEdit id v strength) ++ arts) := by
  unfold Solver.addEdit artificials
  dsimp only
  by_cases hedited : s.isEdited v = true
  · rw [if_pos hedited, hedited, Bool.true_or, if_pos rfl]
    exact h
  · rw [if_neg hedited, Bool.eq_false_of_not_eq_true hedited,
      Bool.false_or]
    split
    · exact h
    · obtain ⟨hregistered, hfoot⟩ :=
        h.registers hnew (on_edit strength hid hv) budget
      generalize (s.artificial? _).toList ++ arts = arts'
        at hregistered hfoot ⊢
      unfold Outcome.andThen
      split
      case h_1 f hf =>
        refine hregistered.setEdit (hid.trans hv.symm) fun x hx => ?_
        obtain ⟨hin, hside⟩ := hfoot f hf x hx
        exact ⟨hin, hside.trans hv.symm⟩
      · exact hregistered

/-- A command about one side keeps a solver tidy, however it ends. -/
theorem perform (h : s.Tidy d arts) {c : Command α}
    (hnew : ∀ i, s.nextId ≤ i → d.ofSymbol i = κ) (hc : c.On d κ)
    (budget : ℕ) :
    (s.perform budget c).state.Tidy d (s.retired arts c) := by
  cases c with
  | add c => exact h.add hnew hc budget
  | remove c => exact h.remove c budget
  | addEdit id v strength => exact h.addEdit hnew hc.1 hc.2 budget
  | removeEdit v => exact h.removeEdit v budget
  | suggest v x => exact h.suggest v x budget
  | refresh => exact h.refresh
  | reset => exact tidy_empty d

end Tidy

/-- The states that commands lead to, whether or not they come to an end,
each with the artificial symbols made on the way. -/
inductive Traced : Solver α → List Symbol → Prop where
  | empty : Traced .empty []
  | step {s : Solver α} {arts : List Symbol} (budget : ℕ) (c : Command α)
      (before : Traced s arts) :
      Traced (s.perform budget c).state (s.retired arts c)

/-- Whatever commands lead to is tidy. -/
theorem Traced.tidy (h : Traced s arts) : s.Tidy .whole arts := by
  induction h with
  | empty => exact tidy_empty _
  | step budget c _ ih => exact ih.perform (fun _ _ => rfl) c.on_whole budget

end Solver

end LinearConstraints
