/-
Likeness: solvers that differ in the numbers of their symbols.

One solver may have given out more numbers than another, and bound
variables that the other has not seen, and still be like it: the one is
the other with its symbols renamed (`Renames`). The variables bound in
excess have external symbols that nothing mentions, so their value is
zero, as it is where they are not bound. A command makes new symbols on
both sides, and the renaming is redirected to take the one to the other;
if only one of the two knows a variable already, to the symbol that it
has. All else a command does commutes with renaming, so like solvers stay
like and give the same answers for ever.

# Carried data

While an operation works it holds rows and symbols of its own, which must
follow each redirection. `Alike s t x y` therefore says of two solvers
that a renaming takes the one to the other and `x` to `y`.

Main statements: what like solvers show is the same (`Renames.value_eq`
and its kin); `Alike.onTableau`, `Alike.fresh` and `Alike.symbolOf` keep
solvers alike where the tableau is worked on, a symbol is made, and a
variable is looked up.
-/
import Mathlib.Algebra.Module.PUnit
import LinearConstraints.Proofs.Renaming
import LinearConstraints.Solver.Constraints

namespace LinearConstraints

open Equiv (Perm)

variable {α : Type}

-- ========================================================= redirecting

section Redirect

variable {ρ : Perm ℕ} {n j : ℕ}

/-- The renaming that takes `n` to `j`, and what was taken to `j` to where
`n` went. -/
def redirect (ρ : Perm ℕ) (n j : ℕ) : Perm ℕ := Equiv.swap (ρ n) j * ρ

theorem redirect_self : redirect ρ n j n = j :=
  Equiv.swap_apply_left (ρ n) j

/-- Below `n` nothing changes if nothing there goes to `j`. -/
theorem redirect_of_lt (hj : ∀ i < n, ρ i ≠ j) :
    ∀ i < n, redirect ρ n j i = ρ i := fun i hi =>
  Equiv.swap_apply_of_ne_of_ne (fun h => hi.ne (ρ.injective h)) (hj i hi)

/-- A symbol of the next number, redirected. -/
theorem redirect_smul (k : Symbol.Kind) :
    redirect ρ n j • (⟨k, n⟩ : Symbol) = ⟨k, j⟩ :=
  congrArg (Symbol.mk k) redirect_self

end Redirect

-- ============================================================= actions

/-- Renaming the symbols of a registered constraint. -/
instance Registration.instMulAction :
    MulAction (Perm ℕ) (Registration α) where
  smul ρ g := ⟨g.constraint, ρ • g.footprint⟩
  one_smul g := congrArg (Registration.mk _) (one_smul _ g.footprint)
  mul_smul ρ σ g := congrArg (Registration.mk _) (mul_smul ρ σ g.footprint)

/-- Renaming the symbols of an edit variable. -/
instance Edit.instMulAction : MulAction (Perm ℕ) (Edit α) where
  smul ρ e := ⟨e.constraint, ρ • e.footprint⟩
  one_smul e := congrArg (Edit.mk _) (one_smul _ e.footprint)
  mul_smul ρ σ e := congrArg (Edit.mk _) (mul_smul ρ σ e.footprint)

/-- Renaming the values of a table whose keys are not symbols. -/
theorem Table.map_smul_congr {κ β : Type} [DecidableEq κ]
    [MulAction (Perm ℕ) β] {t : Table κ β} {ρ σ : Perm ℕ}
    (h : ∀ {k v}, t.get? k = some v → ρ • v = σ • v) :
    (t.map fun _ v => ρ • v) = t.map fun _ v => σ • v := by
  refine Table.ext (List.map_congr_left fun e he => ?_)
  exact Prod.ext rfl (h (Table.get?_eq_some_iff.2 he))

namespace Solver

variable {s t : Solver α} {ρ σ : Perm ℕ}

-- ============================================================ likeness

/-- Every symbol that the solver holds has been given out. -/
structure Numbered (s : Solver α) : Prop where
  tableau : Below s.nextId s.tableau
  registry : ∀ {i g}, s.registry.get? i = some g → Below s.nextId g
  edits : ∀ {v e}, s.edits.get? v = some e → Below s.nextId e
  bindings : ∀ {v b}, s.bindings.get? v = some b → b.symbol.id < s.nextId

/-- `t` is `s` with its symbols renamed, but that it may have bound more
variables. -/
structure Renames (ρ : Perm ℕ) (s t : Solver α) [Scalar α] : Prop where
  tableau : t.tableau = ρ • s.tableau
  registry : t.registry = s.registry.map fun _ g => ρ • g
  edits : t.edits = s.edits.map fun _ e => ρ • e
  image : ∀ i < s.nextId, ρ i < t.nextId
  bound : ∀ {v b}, s.bindings.get? v = some b →
    t.bindings.get? v = some ⟨ρ • b.symbol, b.value⟩
  /-- A variable bound in excess has a symbol that no other has. -/
  extra : ∀ {v b}, s.bindings.get? v = none → t.bindings.get? v = some b →
    b.symbol.kind = .external ∧ b.value = 0 ∧ b.symbol.id < t.nextId
      ∧ ∀ i < s.nextId, ρ i ≠ b.symbol.id
  apart : ∀ {v w b c}, s.bindings.get? v = none →
    s.bindings.get? w = none → t.bindings.get? v = some b →
    t.bindings.get? w = some c → b.symbol.id = c.symbol.id → v = w

namespace Numbered

/-- Giving out more numbers does no harm. -/
theorem mono (h : s.Numbered) {n : ℕ} (hn : s.nextId ≤ n) :
    ({ s with nextId := n } : Solver α).Numbered where
  tableau := h.tableau.mono hn
  registry := fun hg => (h.registry hg).mono hn
  edits := fun he => (h.edits he).mono hn
  bindings := fun hb => (h.bindings hb).trans_le hn

theorem bind (h : s.Numbered) {v : Variable} {b : Binding α}
    (hb : b.symbol.id < s.nextId) :
    ({ s with bindings := s.bindings.insert v b } : Solver α).Numbered where
  tableau := h.tableau
  registry := h.registry
  edits := h.edits
  bindings := by
    intro w c hc
    dsimp only at hc
    rw [Table.get?_insert] at hc
    split at hc
    · obtain rfl := Option.some.inj hc
      exact hb
    · exact h.bindings hc

end Numbered

namespace Renames

variable [Scalar α]

/-- Only what the renaming does to numbers in use counts. -/
theorem congr (h : Renames ρ s t) (hs : s.Numbered)
    (hσ : ∀ i < s.nextId, σ i = ρ i) : Renames σ s t where
  tableau := h.tableau.trans
    (hs.tableau.smul_eq fun i hi => (hσ i hi).symm)
  registry := h.registry.trans <| Table.map_smul_congr fun hg =>
    (hs.registry hg).smul_eq fun i hi => (hσ i hi).symm
  edits := h.edits.trans <| Table.map_smul_congr fun he =>
    (hs.edits he).smul_eq fun i hi => (hσ i hi).symm
  image := fun i hi => hσ i hi ▸ h.image i hi
  bound := by
    intro v b hb
    rw [(below_symbol (hs.bindings hb)).smul_eq hσ]
    exact h.bound hb
  extra := fun hv hb =>
    let ⟨hk, h₀, hlt, hne⟩ := h.extra hv hb
    ⟨hk, h₀, hlt, fun i hi => hσ i hi ▸ hne i hi⟩
  apart := h.apart

/-- A solver is like itself. -/
theorem refl (s : Solver α) : Renames 1 s s where
  tableau := (one_smul _ _).symm
  registry := Table.ext (by
    show s.registry.entries = s.registry.entries.map _
    simp)
  edits := Table.ext (by
    show s.edits.entries = s.edits.entries.map _
    simp)
  image := fun _ hi => hi
  bound := fun hb => by rw [hb, one_smul]
  extra := fun hv hb => by rw [hv] at hb; cases hb
  apart := fun hv _ hb => by rw [hv] at hb; cases hb

/-- A redirection to a number that is not in use. -/
theorem redirect (h : Renames ρ s t) (hs : s.Numbered) {j : ℕ}
    (hj : ∀ i < s.nextId, ρ i ≠ j) :
    Renames (LinearConstraints.redirect ρ s.nextId j) s t :=
  h.congr hs (redirect_of_lt hj)

-- ------------------------------------------------------------ reading

theorem constraints_eq (h : Renames ρ s t) :
    t.constraints = s.constraints := by
  unfold constraints Table.values
  rw [h.registry]
  show (((s.registry.entries.map _).map _).map _) = _
  simp only [List.map_map]
  rfl

theorem get?_registry (h : Renames ρ s t) (i : ℕ) :
    t.registry.get? i = (s.registry.get? i).map (ρ • ·) := by
  rw [h.registry, Table.get?_map]

theorem get?_edits (h : Renames ρ s t) (v : Variable) :
    t.edits.get? v = (s.edits.get? v).map (ρ • ·) := by
  rw [h.edits, Table.get?_map]

theorem edit?_eq (h : Renames ρ s t) (v : Variable) :
    t.edit? v = s.edit? v := by
  unfold edit?
  rw [h.get?_edits, Option.map_map]
  rfl

theorem contains_eq (h : Renames ρ s t) (c : Constraint α) :
    t.contains c = s.contains c := by
  unfold contains Table.contains
  rw [h.get?_registry, Option.isSome_map]

theorem isEdited_eq (h : Renames ρ s t) (v : Variable) :
    t.isEdited v = s.isEdited v := by
  unfold isEdited Table.contains
  rw [h.get?_edits, Option.isSome_map]

theorem value_eq (h : Renames ρ s t) (v : Variable) :
    t.value v = s.value v := by
  unfold value
  cases hs : s.bindings.get? v with
  | some b => rw [h.bound hs]
  | none =>
      cases ht : t.bindings.get? v with
      | none => rfl
      | some b => exact (h.extra hs ht).2.1

/-- What is bound in excess stays at zero. -/
theorem solution_extra (h : Renames ρ s t) (hs : s.Numbered) {x : Symbol}
    (hx : ∀ i < s.nextId, ρ i ≠ x.id) : t.tableau.solution x = 0 := by
  have hback : ρ • (ρ⁻¹ • x) = x := smul_inv_smul ρ x
  rw [h.tableau, ← hback, Tableau.solution_smul]
  unfold Tableau.solution
  rw [Tableau.get?_of_below hs.tableau]
  by_contra hlt
  exact hx _ (not_le.1 hlt) (congrArg Symbol.id hback)

end Renames

-- ======================================================== carried data

section Alike

variable {X Y : Type} [MulAction (Perm ℕ) X] [MulAction (Perm ℕ) Y]
  [Scalar α] {x y : X} {x' y' : Y}

/-- A renaming takes one solver to the other, and what is held beside the
one to what is held beside the other. -/
def Alike (s t : Solver α) (x y : X) : Prop :=
  ∃ ρ : Perm ℕ, s.Numbered ∧ Renames ρ s t ∧ Below s.nextId x ∧ y = ρ • x

namespace Alike

/-- What is made of the data without looking at numbers. -/
theorem map (h : Alike s t x y) (f : X → Y)
    (hf : ∀ (ρ : Perm ℕ) x, f (ρ • x) = ρ • f x) :
    Alike s t (f x) (f y) := by
  obtain ⟨ρ, hs, h, hx, rfl⟩ := h
  exact ⟨ρ, hs, h, hx.map fun ρ => hf ρ x, hf ρ x⟩

/-- The tableau may be counted among the data. -/
theorem withTableau (h : Alike s t x y) :
    Alike s t (s.tableau, x) (t.tableau, y) := by
  obtain ⟨ρ, hs, h, hx, rfl⟩ := h
  exact ⟨ρ, hs, h, hs.tableau.prod hx, Prod.ext h.tableau rfl⟩

/-- A tableau among the data may be put in place. -/
theorem setTableau {u v : Tableau α}
    (h : Alike s t (u, x) (v, y)) :
    Alike { s with tableau := u } { t with tableau := v } x y := by
  obtain ⟨ρ, hs, h, hx, hy⟩ := h
  obtain ⟨hv, hy⟩ := Prod.mk.inj hy
  refine ⟨ρ, { hs with tableau := ?_ }, { h with tableau := hv }, ?_, hy⟩
  · exact hx.map (f := Prod.fst) fun _ => rfl
  · exact hx.map (f := Prod.snd) fun _ => rfl

/-- Work on the tableau that does not look at numbers. -/
theorem onTableau {τ : Type} (h : Alike s t x y)
    (f : Tableau α → X → Outcome (Tableau α) Tableau.Failure τ)
    (hf : ∀ (ρ : Perm ℕ) u x, f (ρ • u) (ρ • x) = ρ • f u x) :
    (t.onTableau (f t.tableau y)).result
        = (s.onTableau (f s.tableau x)).result
      ∧ Alike (s.onTableau (f s.tableau x)).state
          (t.onTableau (f t.tableau y)).state x y := by
  have hstate : Alike s t ((f s.tableau x).state, x)
      ((f t.tableau y).state, y) :=
    h.withTableau.map (fun p : Tableau α × X => ((f p.1 p.2).state, p.2))
      fun ρ p => Prod.ext (congrArg Outcome.state (hf ρ p.1 p.2)) rfl
  refine ⟨?_, hstate.setTableau⟩
  obtain ⟨ρ, -, h, -, rfl⟩ := h
  unfold Solver.onTableau
  rw [h.tableau, hf]
  rfl

/-- Registering the same constraint with symbols among the data. -/
theorem register {f f' : Footprint} (h : Alike s t (f, x) (f', y))
    (c : Constraint α) :
    Alike { s with registry := s.registry.insert c.id ⟨c, f⟩ }
      { t with registry := t.registry.insert c.id ⟨c, f'⟩ } (f, x) (f', y)
    := by
  obtain ⟨ρ, hs, h, hx, hy⟩ := h
  obtain ⟨rfl, -⟩ := Prod.mk.inj hy
  refine ⟨ρ, { hs with registry := ?_ }, { h with registry := ?_ }, hx, hy⟩
  · intro i g hg
    dsimp only at hg
    rw [Table.get?_insert] at hg
    split at hg
    · obtain rfl := Option.some.inj hg
      exact (hx.map (f := Prod.fst) fun _ => rfl).map
        (f := Registration.mk c) fun _ => rfl
    · exact hs.registry hg
  · rw [h.registry]
    exact Table.insert_map (ρ • ·) s.registry c.id ⟨c, f⟩

theorem unregister (h : Alike s t x y) (i : ℕ) :
    Alike { s with registry := s.registry.erase i }
      { t with registry := t.registry.erase i } x y := by
  obtain ⟨ρ, hs, h, hx, hy⟩ := h
  refine ⟨ρ, { hs with registry := ?_ }, { h with registry := ?_ }, hx, hy⟩
  · intro j g hg
    dsimp only at hg
    rw [Table.get?_erase] at hg
    split at hg
    · cases hg
    · exact hs.registry hg
  · rw [h.registry]
    exact Table.erase_map (ρ • ·) s.registry i

/-- Recording an edit with symbols among the data. -/
theorem setEdit {f f' : Footprint} (h : Alike s t (f, x) (f', y))
    (v : Variable) (e : EditConstraint α) :
    Alike { s with edits := s.edits.insert v ⟨e, f⟩ }
      { t with edits := t.edits.insert v ⟨e, f'⟩ } (f, x) (f', y) := by
  obtain ⟨ρ, hs, h, hx, hy⟩ := h
  obtain ⟨rfl, -⟩ := Prod.mk.inj hy
  refine ⟨ρ, { hs with edits := ?_ }, { h with edits := ?_ }, hx, hy⟩
  · intro w k hk
    dsimp only at hk
    rw [Table.get?_insert] at hk
    split at hk
    · obtain rfl := Option.some.inj hk
      exact (hx.map (f := Prod.fst) fun _ => rfl).map
        (f := Edit.mk e) fun _ => rfl
    · exact hs.edits hk
  · rw [h.edits]
    exact Table.insert_map (ρ • ·) s.edits v ⟨e, f⟩

theorem eraseEdit (h : Alike s t x y) (v : Variable) :
    Alike { s with edits := s.edits.erase v }
      { t with edits := t.edits.erase v } x y := by
  obtain ⟨ρ, hs, h, hx, hy⟩ := h
  refine ⟨ρ, { hs with edits := ?_ }, { h with edits := ?_ }, hx, hy⟩
  · intro w k hk
    dsimp only at hk
    rw [Table.get?_erase] at hk
    split at hk
    · cases hk
    · exact hs.edits hk
  · rw [h.edits]
    exact Table.erase_map (ρ • ·) s.edits v

-- ------------------------------------------------------- new symbols

/-- A new symbol on both sides. -/
theorem fresh (h : Alike s t x y) (k : Symbol.Kind) :
    Alike (s.fresh k).2 (t.fresh k).2 ((s.fresh k).1, x)
      ((t.fresh k).1, y) := by
  obtain ⟨ρ, hs, h, hx, rfl⟩ := h
  have hnew : ∀ i < s.nextId, ρ i ≠ t.nextId :=
    fun i hi => (h.image i hi).ne
  have hr := h.redirect hs hnew
  have hlt : s.nextId < s.nextId + 1 := Nat.lt_succ_self _
  have hlt' : t.nextId < t.nextId + 1 := Nat.lt_succ_self _
  refine ⟨redirect ρ s.nextId t.nextId, hs.mono hlt.le,
    { hr with image := ?_, extra := ?_ },
    Below.prod (below_symbol hlt) (hx.mono hlt.le), ?_⟩
  · intro i hi
    rcases Nat.lt_succ_iff_lt_or_eq.1 hi with hi | rfl
    · exact (hr.image i hi).trans hlt'
    · rw [redirect_self]
      exact hlt'
  · intro v b hv hb
    obtain ⟨hk, h₀, hb, hne⟩ := hr.extra hv hb
    refine ⟨hk, h₀, hb.trans hlt', fun i hi => ?_⟩
    rcases Nat.lt_succ_iff_lt_or_eq.1 hi with hi | rfl
    · exact hne i hi
    · rw [redirect_self]
      exact hb.ne'
  · refine Prod.ext (redirect_smul k).symm ?_
    exact hx.smul_eq fun i hi => (redirect_of_lt hnew i hi).symm

/-- A variable that is new to both is bound to a symbol among the data. -/
private theorem bind {a b : Symbol} (h : Alike s t (a, x) (b, y))
    {v : Variable} (ha : a.id < s.nextId) :
    Alike { s with bindings := s.bindings.insert v ⟨a, 0⟩ }
      { t with bindings := t.bindings.insert v ⟨b, 0⟩ } (a, x) (b, y) := by
  obtain ⟨ρ, hs, h, hx, hy⟩ := h
  obtain ⟨rfl, -⟩ := Prod.mk.inj hy
  refine ⟨ρ, hs.bind ha,
    { h with bound := ?_, extra := ?_, apart := ?_ }, hx, hy⟩
  · intro w c hc
    dsimp only at hc ⊢
    rw [Table.get?_insert] at hc ⊢
    split
    case isTrue hvw =>
      rw [if_pos hvw] at hc
      obtain rfl := Option.some.inj hc
      rfl
    case isFalse hvw =>
      rw [if_neg hvw] at hc
      exact h.bound hc
  · intro w c hw hc
    obtain ⟨hvw, hw⟩ := Table.get?_insert_eq_none_iff.1 hw
    dsimp only at hc
    rw [Table.get?_insert, if_neg hvw] at hc
    exact h.extra hw hc
  · intro w w' c c' hw hw' hc hc'
    obtain ⟨hvw, hw⟩ := Table.get?_insert_eq_none_iff.1 hw
    obtain ⟨hvw', hw'⟩ := Table.get?_insert_eq_none_iff.1 hw'
    dsimp only at hc hc'
    rw [Table.get?_insert, if_neg hvw] at hc
    rw [Table.get?_insert, if_neg hvw'] at hc'
    exact h.apart hw hw' hc hc'

/-- A variable that only the second has bound: the first binds it to a
new symbol, which is redirected to the one there is. -/
private theorem bind_extra (h : Alike s t x y) {v : Variable}
    {b : Binding α} (hv : s.bindings.get? v = none)
    (hb : t.bindings.get? v = some b) :
    Alike
      { s with
        nextId := s.nextId + 1
        bindings := s.bindings.insert v ⟨⟨.external, s.nextId⟩, 0⟩ } t
      ((⟨.external, s.nextId⟩ : Symbol), x) (b.symbol, y) := by
  obtain ⟨ρ, hs, h, hx, rfl⟩ := h
  obtain ⟨hk, h₀, hlt, hne⟩ := h.extra hv hb
  have hr := h.redirect hs hne
  have hself : redirect ρ s.nextId b.symbol.id
      • (⟨.external, s.nextId⟩ : Symbol) = b.symbol := by
    rw [redirect_smul, ← hk]
  have hn : s.nextId < s.nextId + 1 := Nat.lt_succ_self _
  refine ⟨redirect ρ s.nextId b.symbol.id, (hs.mono hn.le).bind hn,
    { hr with image := ?_, bound := ?_, extra := ?_, apart := ?_ },
    Below.prod (below_symbol hn) (hx.mono hn.le), ?_⟩
  · intro i hi
    rcases Nat.lt_succ_iff_lt_or_eq.1 hi with hi | rfl
    · exact hr.image i hi
    · rw [redirect_self]
      exact hlt
  · intro w c hc
    dsimp only at hc
    rw [Table.get?_insert] at hc
    split at hc
    case isTrue hvw =>
      obtain rfl := Option.some.inj hc
      subst hvw
      dsimp only
      rw [hb, hself, ← h₀]
    case isFalse hvw => exact hr.bound hc
  · intro w c hw hc
    obtain ⟨hvw, hw⟩ := Table.get?_insert_eq_none_iff.1 hw
    obtain ⟨hk', h₀', hlt', hne'⟩ := hr.extra hw hc
    refine ⟨hk', h₀', hlt', fun i hi => ?_⟩
    rcases Nat.lt_succ_iff_lt_or_eq.1 hi with hi | rfl
    · exact hne' i hi
    · rw [redirect_self]
      exact fun heq => hvw (h.apart hv hw hb hc heq)
  · exact fun hw hw' => hr.apart (Table.get?_insert_eq_none_iff.1 hw).2
      (Table.get?_insert_eq_none_iff.1 hw').2
  · refine Prod.ext hself.symm ?_
    exact hx.smul_eq fun i hi => (redirect_of_lt hne i hi).symm

/-- The symbol of a variable, which one of the two may know already. -/
theorem symbolOf (h : Alike s t x y) (v : Variable) :
    Alike (s.symbolOf v).2 (t.symbolOf v).2 ((s.symbolOf v).1, x)
      ((t.symbolOf v).1, y) := by
  unfold Solver.symbolOf
  cases hv : s.bindings.get? v with
  | some b =>
      obtain ⟨ρ, hs, h, hx, rfl⟩ := h
      rw [h.bound hv]
      exact ⟨ρ, hs, h, Below.prod (below_symbol (hs.bindings hv)) hx, rfl⟩
  | none =>
      cases hw : t.bindings.get? v with
      | none => exact (h.fresh .external).bind (Nat.lt_succ_self _)
      | some b => exact h.bind_extra hv hw

end Alike

end Alike

end Solver

end LinearConstraints
