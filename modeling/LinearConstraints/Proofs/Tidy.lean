/-
Tidiness: basic symbols are kept apart from the symbols that define them.

Nothing is asked of the arithmetic here. Rounded or not, a coefficient may
come out as anything, and a cell may vanish or stay for no good reason;
but a cell is only ever written for a symbol that a row to be added
mentions already. So which symbols may have cells can be followed through
pivots, searches and rollbacks without looking at numbers at all.

# Sides

The symbols may fall into two sides, by their numbers, so that each row
keeps to the side of its key. A pivot exchanges symbols of one side, since
the row that it solves mentions both, and so it leaves the rows on their
sides. Where one side has all symbols this says nothing.

Main statements: `Tidy.exchange?`, one pivot; `Tidy.minimise`,
`Tidy.restore`, `Tidy.adjoin`, `Tidy.dropMarker` and `Tidy.moveTarget`.
-/
import Mathlib.Data.Set.Insert
import LinearConstraints.Tableau.Dual
import LinearConstraints.Tableau.Feasibility
import LinearConstraints.Tableau.Removal
import LinearConstraints.Tableau.Target

namespace LinearConstraints

variable {α : Type}

-- =============================================================== rows

namespace Row

/-- All symbols of the row are of some kind. -/
def Within (r : Row α) (P : Symbol → Prop) : Prop :=
  ∀ x ∈ r.symbols, P x

namespace Within

variable {r d : Row α} {P Q : Symbol → Prop} {s : Symbol}

theorem mono (h : r.Within P) (hPQ : ∀ x, P x → Q x) : r.Within Q :=
  fun x hx => hPQ x (h x hx)

theorem ofConstant (k : α) : (Row.ofConstant k).Within P :=
  fun _ hx => absurd hx List.not_mem_nil

/-- Discarding a cell leaves the others. -/
theorem discard (h : ∀ x ∈ r.symbols, x ≠ s → P x) :
    (r.discard s).Within P := by
  intro x hx
  obtain ⟨k, hk⟩ := mem_symbols_iff.1 hx
  rw [get?_discard] at hk
  split at hk
  · cases hk
  case isFalse hsx => exact h x (mem_symbols_iff.2 ⟨k, hk⟩) (Ne.symm hsx)

variable [Scalar α]

theorem addCell (h : r.Within P) (hs : P s) (k : α) :
    (r.addCell s k).Within P := by
  intro x hx
  obtain ⟨c, hc⟩ := mem_symbols_iff.1 hx
  rw [get?_addCell] at hc
  split at hc
  case isTrue hsx => exact hsx ▸ hs
  case isFalse => exact h x (mem_symbols_iff.2 ⟨c, hc⟩)

theorem shift (h : r.Within P) (k : α) : (r.shift k).Within P := h

theorem addRow (h : r.Within P) (hd : d.Within P) (k : α) :
    (r.addRow d k).Within P := by
  have key : ∀ (l : List (Symbol × α)) (acc : Row α), acc.Within P →
      (∀ c ∈ l, P c.1) →
      (l.foldl (fun acc c => acc.addCell c.1 (c.2 * k)) acc).Within P := by
    intro l
    induction l with
    | nil => exact fun _ hacc _ => hacc
    | cons c l ih =>
        intro acc hacc hl
        refine ih _ (hacc.addCell (hl c (List.mem_cons_self ..)) _) ?_
        exact fun c' hc' => hl c' (List.mem_cons_of_mem c hc')
  exact key _ _ (h.shift _) fun c hc => hd c.1 (List.mem_map_of_mem hc)

theorem scaled (h : r.Within P) (k : α) : (r.scaled k).Within P := by
  unfold Within
  rwa [symbols_scaled]

theorem negated (h : r.Within P) : r.negated.Within P := by
  unfold Within
  rwa [symbols_negated]

/-- A substitution takes the symbol out, and brings in symbols of the
definition only if it was there. -/
theorem substitute (h : ∀ x ∈ r.symbols, x ≠ s → P x)
    (hd : s ∈ r.symbols → d.Within P) : (r.substitute s d).Within P := by
  unfold Row.substitute
  split
  case h_1 hnone =>
    intro x hx
    refine h x hx fun hxs => ?_
    obtain ⟨k, hk⟩ := mem_symbols_iff.1 hx
    rw [hxs, hnone] at hk
    cases hk
  case h_2 a ha =>
    exact (Within.discard h).addRow (hd (mem_symbols_iff.2 ⟨a, ha⟩)) a

end Within

variable [Scalar α] {r d : Row α} {x s : Symbol}

/-- Solving a row drops the symbol that it is solved for. -/
theorem isolate?_within (h : r.isolate? s = some d) :
    s ∈ r.symbols ∧ d.Within fun x => x ∈ r.symbols ∧ x ≠ s := by
  unfold isolate? at h
  split at h
  · cases h
  case h_2 a ha =>
    obtain rfl := Option.some.inj h
    exact ⟨mem_symbols_iff.2 ⟨a, ha⟩,
      (Within.discard fun x hx hxs => ⟨hx, hxs⟩).scaled _⟩

/-- The definition of the entering symbol mentions the leaving symbol and
what the row mentioned. -/
theorem resolve?_within {leaving entering : Symbol}
    (h : r.resolve? leaving entering = some d) :
    (entering = leaving ∨ entering ∈ r.symbols)
      ∧ d.Within fun x => (x = leaving ∨ x ∈ r.symbols) ∧ x ≠ entering := by
  have hrow : r.Within fun x => x = leaving ∨ x ∈ r.symbols :=
    fun x hx => Or.inr hx
  have hall := hrow.addCell (s := leaving) (Or.inl rfl) (-1)
  obtain ⟨hentering, hd⟩ := isolate?_within h
  exact ⟨hall _ hentering, hd.mono fun x hx => ⟨hall x hx.1, hx.2⟩⟩

end Row

-- ============================================================ tableaux

namespace Tableau

variable {side : ℕ → Bool} {S T : Set Symbol} {t t' : Tableau α}
  {r d : Row α} {x s : Symbol}

/-- A symbol of the set that is not basic. -/
def NonBasic (t : Tableau α) (S : Set Symbol) (x : Symbol) : Prop :=
  x ∈ S ∧ t.rows.get? x = none

/-- All symbols come from a set; the rows keep to their sides; and neither
they nor the objectives mention a basic symbol. -/
structure Tidy (side : ℕ → Bool) (S : Set Symbol) (t : Tableau α) : Prop
    where
  basic : ∀ {b r}, t.rows.get? b = some r → b ∈ S
  row : ∀ {b r}, t.rows.get? b = some r →
    r.Within fun x => t.NonBasic S x ∧ side x.id = side b.id
  objective : t.objective.Within (t.NonBasic S)
  auxiliary : ∀ {a}, t.auxiliary = some a → a.Within (t.NonBasic S)

theorem NonBasic.mono (h : t.NonBasic S x) (hST : S ⊆ T) :
    t.NonBasic T x := ⟨hST h.1, h.2⟩

/-- A basic symbol is none of those that are not. -/
theorem NonBasic.ne (h : t.NonBasic S x) (hs : t.rows.get? s = some r) :
    x ≠ s := (Table.ne_of_get? hs h.2).symm

namespace Tidy

theorem mono (h : t.Tidy side S) (hST : S ⊆ T) : t.Tidy side T where
  basic := fun hr => hST (h.basic hr)
  row := fun hr => (h.row hr).mono fun _ hx => ⟨hx.1.mono hST, hx.2⟩
  objective := h.objective.mono fun _ hx => hx.mono hST
  auxiliary := fun ha => (h.auxiliary ha).mono fun _ hx => hx.mono hST

/-- A symbol from elsewhere is not basic. -/
theorem get?_of_not_mem (h : t.Tidy side S) (hx : x ∉ S) :
    t.rows.get? x = none :=
  Option.eq_none_iff_forall_ne_some.2 fun _ hr => hx (h.basic hr)

/-- Only the symbols of the forms count. -/
theorem of_symbols (h : t.Tidy side S)
    (hrows : ∀ b, (t'.rows.get? b).map Row.symbols
      = (t.rows.get? b).map Row.symbols)
    (hobjective : t'.objective = t.objective)
    (hauxiliary : t'.auxiliary = t.auxiliary) : t'.Tidy side S := by
  have hrow : ∀ {b r'}, t'.rows.get? b = some r' →
      ∃ r, t.rows.get? b = some r ∧ r.symbols = r'.symbols := by
    intro b r' hr'
    have hb := hrows b
    rw [hr'] at hb
    exact Option.map_eq_some_iff.1 hb.symm
  have hnonbasic : ∀ x, t.NonBasic S x → t'.NonBasic S x := by
    intro x hx
    have hnone : (t'.rows.get? x).map Row.symbols = none := by
      rw [hrows, hx.2]
      rfl
    exact ⟨hx.1, Option.map_eq_none_iff.1 hnone⟩
  refine ⟨fun hr' => ?_, fun hr' x hx => ?_, ?_, fun ha => ?_⟩
  · obtain ⟨r, hr, -⟩ := hrow hr'
    exact h.basic hr
  · obtain ⟨r, hr, hsymbols⟩ := hrow hr'
    obtain ⟨hfree, hside⟩ := h.row hr x (hsymbols ▸ hx)
    exact ⟨hnonbasic x hfree, hside⟩
  · rw [hobjective]
    exact h.objective.mono hnonbasic
  · exact (h.auxiliary (hauxiliary ▸ ha)).mono hnonbasic

/-- Taking a row out. Its key may be mentioned then. -/
theorem without (h : t.Tidy side S) (b : Symbol) :
    (t.without b).Tidy side S := by
  have hnonbasic : ∀ x, t.NonBasic S x → (t.without b).NonBasic S x := by
    intro x hx
    refine ⟨hx.1, ?_⟩
    rw [get?_rows_without, hx.2]
    split <;> rfl
  exact ⟨fun hr => h.basic (get?_of_without hr).2,
    fun hr => (h.row (get?_of_without hr).2).mono fun x hx =>
      ⟨hnonbasic x hx.1, hx.2⟩,
    h.objective.mono hnonbasic,
    fun ha => (h.auxiliary ha).mono hnonbasic⟩

/-- A basic symbol is mentioned nowhere, so that nothing of it remains
when its row is taken out. -/
theorem without_self (h : t.Tidy side S) (hr : t.rows.get? s = some r) :
    (t.without s).Tidy side (S \ {s}) := by
  have hnonbasic : ∀ x, t.NonBasic S x →
      (t.without s).NonBasic (S \ {s}) x := by
    intro x hx
    refine ⟨⟨hx.1, hx.ne hr⟩, ?_⟩
    rw [get?_rows_without, hx.2]
    split <;> rfl
  refine ⟨fun hb => ?_, fun hb => ?_, h.objective.mono hnonbasic,
    fun ha => (h.auxiliary ha).mono hnonbasic⟩
  · obtain ⟨hne, hb⟩ := get?_of_without hb
    exact ⟨h.basic hb, hne.symm⟩
  · exact (h.row (get?_of_without hb).2).mono fun x hx =>
      ⟨hnonbasic x hx.1, hx.2⟩

-- ============================================================ pivoting

variable [Scalar α]

/-- A definition by symbols that are not basic takes the place of the
symbol that it defines. -/
theorem substitute (h : t.Tidy side S) (hs : t.rows.get? s = none)
    (hd : d.Within fun x =>
      t.NonBasic (S \ {s}) x ∧ side x.id = side s.id) :
    (t.substitute s d).Tidy side (S \ {s}) := by
  have hnonbasic : ∀ x, t.NonBasic (S \ {s}) x →
      (t.substitute s d).NonBasic (S \ {s}) x := by
    intro x hx
    refine ⟨hx.1, ?_⟩
    rw [get?_rows_substitute, hx.2]
    rfl
  have hform : ∀ r : Row α, r.Within (t.NonBasic S) →
      (r.substitute s d).Within ((t.substitute s d).NonBasic (S \ {s})) :=
    fun r hr => Row.Within.substitute
      (fun x hx hxs => hnonbasic x ⟨⟨(hr x hx).1, hxs⟩, (hr x hx).2⟩)
      fun _ => hd.mono fun x hx => hnonbasic x hx.1
  refine ⟨fun hr' => ?_, fun hr' => ?_, hform _ h.objective, fun ha => ?_⟩
  · obtain ⟨r, hr, -⟩ := row_of_substitute hr'
    exact ⟨h.basic hr, Table.ne_of_get? hr hs⟩
  · obtain ⟨r, hr, rfl⟩ := row_of_substitute hr'
    have hrow := h.row hr
    refine Row.Within.substitute (fun x hx hxs => ?_) fun hmem => ?_
    · obtain ⟨hx, hside⟩ := hrow x hx
      exact ⟨hnonbasic x ⟨⟨hx.1, hxs⟩, hx.2⟩, hside⟩
    · -- The row mentions the symbol, so the two are of one side.
      have hside := (hrow s hmem).2
      exact hd.mono fun x hx => ⟨hnonbasic x hx.1, hx.2.trans hside⟩
  · obtain ⟨a, ha₀, rfl⟩ := Option.map_eq_some_iff.1 ha
    exact hform a (h.auxiliary ha₀)

/-- A definition by symbols that are not basic is installed. -/
theorem install (h : t.Tidy side S) (hs : t.NonBasic S s)
    (hd : d.Within fun x =>
      t.NonBasic (S \ {s}) x ∧ side x.id = side s.id) :
    (t.install s d).Tidy side S := by
  have hsub := h.substitute hs.2 hd
  have hnonbasic : ∀ x, (t.substitute s d).NonBasic (S \ {s}) x →
      (t.install s d).NonBasic S x := by
    intro x hx
    refine ⟨hx.1.1, Table.get?_insert_eq_none_iff.2 ⟨?_, hx.2⟩⟩
    exact fun heq => hx.1.2 heq.symm
  have hold : ∀ x, t.NonBasic (S \ {s}) x → (t.install s d).NonBasic S x :=
    fun x hx => hnonbasic x ⟨hx.1, by rw [get?_rows_substitute, hx.2]; rfl⟩
  refine ⟨fun hr => ?_, fun hr => ?_, hsub.objective.mono hnonbasic,
    fun ha => (hsub.auxiliary ha).mono hnonbasic⟩
  · rcases row_of_install hr with ⟨rfl, -⟩ | ⟨r₀, hr₀, -⟩
    · exact hs.1
    · exact h.basic hr₀
  · rcases row_of_install hr with ⟨rfl, rfl⟩ | ⟨r₀, hr₀, rfl⟩
    · exact hd.mono fun x hx => ⟨hold x hx.1, hx.2⟩
    · refine (hsub.row ?_).mono fun x hx => ⟨hnonbasic x hx.1, hx.2⟩
      rw [get?_rows_substitute, hr₀]
      rfl

/-- The row that a pivot solves, and what it becomes: it is of one side
and mentions symbols that are not basic once it is taken out. -/
theorem resolve? {leaving entering : Symbol} (h : t.Tidy side S)
    (hr : t.rows.get? leaving = some r)
    (hd : r.resolve? leaving entering = some d) :
    (t.without leaving).NonBasic S entering
      ∧ d.Within fun x => (t.without leaving).NonBasic (S \ {entering}) x
        ∧ side x.id = side entering.id := by
  obtain ⟨hentering, hdef⟩ := Row.resolve?_within hd
  have hall : ∀ x, x = leaving ∨ x ∈ r.symbols →
      (t.without leaving).NonBasic S x ∧ side x.id = side leaving.id := by
    intro x hx
    rcases hx with rfl | hx
    · refine ⟨⟨h.basic hr, ?_⟩, rfl⟩
      rw [get?_rows_without, if_pos rfl]
    · obtain ⟨hx, hside⟩ := h.row hr x hx
      refine ⟨⟨hx.1, ?_⟩, hside⟩
      rw [get?_rows_without, hx.2]
      split <;> rfl
  obtain ⟨hnon, hside⟩ := hall entering hentering
  refine ⟨hnon, hdef.mono fun x hx => ?_⟩
  obtain ⟨hx, hxe⟩ := hx
  obtain ⟨hfree, hx⟩ := hall x hx
  exact ⟨⟨⟨hfree.1, hxe⟩, hfree.2⟩, hx.trans hside.symm⟩

/-- A pivot keeps a tableau tidy. -/
theorem exchange? {leaving entering : Symbol} (h : t.Tidy side S)
    (ht : t.exchange? leaving entering = some t') : t'.Tidy side S := by
  obtain ⟨r, d, hr, hd, rfl⟩ := exchange?_eq_some_iff.1 ht
  obtain ⟨hentering, hdef⟩ := h.resolve? hr hd
  exact (h.without leaving).install hentering hdef

-- =============================================================== loops

omit [Scalar α] in
/-- The stack does not count. -/
theorem withStack (h : t.Tidy side S) (l : List Symbol) :
    ({ t with infeasible := l } : Tableau α).Tidy side S :=
  ⟨h.basic, h.row, h.objective, h.auxiliary⟩

omit [Scalar α] in
theorem dropAuxiliary (h : t.Tidy side S) :
    ({ t with auxiliary := none } : Tableau α).Tidy side S :=
  ⟨h.basic, h.row, h.objective, fun ha => by cases ha⟩

/-- A pivot keeps the auxiliary objective if there is one. -/
theorem auxiliary_of_exchange? {leaving entering : Symbol}
    (ht : t.exchange? leaving entering = some t') :
    t'.auxiliary.isSome = t.auxiliary.isSome := by
  obtain ⟨r, d, -, -, rfl⟩ := exchange?_eq_some_iff.1 ht
  exact Option.isSome_map

omit [Scalar α] in
theorem auxiliary_eq_none {u : Tableau α}
    (h : u.auxiliary.isSome = t.auxiliary.isSome)
    (haux : t.auxiliary = none) : u.auxiliary = none := by
  rw [haux] at h
  cases hu : u.auxiliary with
  | none => rfl
  | some a =>
      rw [hu] at h
      cases h

/-- What a loop of pivots keeps: the tableau stays tidy, and searches with
an auxiliary objective go on with one. -/
def Steady (side : ℕ → Bool) (S : Set Symbol) (t u : Tableau α) : Prop :=
  u.Tidy side S ∧ u.auxiliary.isSome = t.auxiliary.isSome

section Loops

variable {u u' : Tableau α}

omit [Scalar α] in
theorem Steady.withStack (h : Steady side S t u) (l : List Symbol) :
    Steady side S t { u with infeasible := l } :=
  ⟨h.1.withStack l, h.2⟩

theorem Steady.exchange? {leaving entering : Symbol}
    (h : Steady side S t u) (ht : u.exchange? leaving entering = some u') :
    Steady side S t u' :=
  ⟨h.1.exchange? ht, (auxiliary_of_exchange? ht).trans h.2⟩

theorem primalStep_steady {goal : Goal} (h : Steady side S t u)
    (hstep : primalStep goal u = .next u') : Steady side S t u' := by
  cases primalStep_eq_iff.1 hstep with
  | pivot _ _ _ exchange => exact h.exchange? exchange

theorem dualStep_steady (h : Steady side S t u)
    (hstep : dualStep u = .next u') : Steady side S t u' := by
  cases dualStep_eq_iff.1 hstep with
  | @pass _ rest => exact h.withStack rest
  | @pivot _ _ rest _ _ _ _ _ _ exchange =>
      exact (h.withStack rest).exchange? exchange

end Loops

theorem minimise (h : t.Tidy side S) (budget : Nat) (goal : Goal) :
    Steady side S t (t.minimise budget goal).state :=
  iterate_state (fun _ _ hu hstep => primalStep_steady hu hstep)
    (fun _ _ _ hu hstop => state_of_primalStep hstop ▸ hu) budget ⟨h, rfl⟩

theorem restore (h : t.Tidy side S) (budget : Nat) :
    Steady side S t (t.restore budget).state := by
  refine iterate_state (fun _ _ hu hstep => dualStep_steady hu hstep)
    (fun u u' res hu hstop => ?_) budget ⟨h, rfl⟩
  obtain ⟨stack, rfl⟩ := stack_of_dualStep hstop
  exact hu.withStack stack

-- ========================================================== adjunction

omit [Scalar α] in
/-- A symbol that is not basic leaves with its cells. -/
theorem purge (h : t.Tidy side S) (hs : t.rows.get? s = none)
    (haux : t.auxiliary = none) : (t.purge s).Tidy side (S \ {s}) := by
  have hget : ∀ b, (t.purge s).rows.get? b
      = (t.rows.get? b).map fun r => r.discard s :=
    fun b => Table.get?_map _ t.rows b
  have hnonbasic : ∀ x, t.NonBasic S x → x ≠ s →
      (t.purge s).NonBasic (S \ {s}) x := by
    intro x hx hxs
    refine ⟨⟨hx.1, hxs⟩, ?_⟩
    rw [hget, hx.2]
    rfl
  refine ⟨fun hr' => ?_, fun hr' => ?_,
    Row.Within.discard fun x hx => hnonbasic x (h.objective x hx),
    fun ha => ?_⟩
  · rw [hget] at hr'
    obtain ⟨r, hr, -⟩ := Option.map_eq_some_iff.1 hr'
    exact ⟨h.basic hr, Table.ne_of_get? hr hs⟩
  · rw [hget] at hr'
    obtain ⟨r, hr, rfl⟩ := Option.map_eq_some_iff.1 hr'
    refine Row.Within.discard fun x hx hxs => ?_
    exact ⟨hnonbasic x (h.row hr x hx).1 hxs, (h.row hr x hx).2⟩
  · rw [show (t.purge s).auxiliary = t.auxiliary from rfl, haux] at ha
    cases ha

/-- Nothing of an artificial symbol remains when it has been retired. -/
theorem retire {art : Symbol} (h : t.Tidy side S)
    (haux : t.auxiliary = none)
    (hok : (t.retire art).result = .ok true) :
    (t.retire art).state.Tidy side (S \ {art})
      ∧ (t.retire art).state.auxiliary = none := by
  generalize ho : t.retire art = o at hok ⊢
  cases retire_eq_iff.1 ho with
  | away row => exact ⟨h.purge row haux, haux⟩
  | empty row => exact ⟨h.without_self row, haux⟩
  | refused | absent => cases hok
  | @pivot r entering t' row _ enters exchange =>
      -- The symbol has left the basis and does not come back.
      have haux' := auxiliary_eq_none (auxiliary_of_exchange? exchange) haux
      have hne : entering ≠ art :=
        (h.row row entering (List.mem_of_find?_eq_some enters)).1.ne row
      exact ⟨(h.exchange? exchange).purge (get?_of_exchange? exchange hne)
        haux', haux'⟩

omit [Scalar α] in
/-- An artificial symbol that is new, and a row to search with. -/
theorem withArtificial {art : Symbol} (h : t.Tidy side S) (hart : art ∉ S)
    (hr : r.Within fun x => t.NonBasic S x ∧ side x.id = side art.id) :
    (t.withArtificial art r).Tidy side (insert art S) := by
  have hnonbasic : ∀ x, t.NonBasic S x →
      (t.withArtificial art r).NonBasic (insert art S) x := by
    intro x hx
    refine ⟨Or.inr hx.1, Table.get?_insert_eq_none_iff.2 ⟨?_, hx.2⟩⟩
    exact fun heq => hart (heq ▸ hx.1)
  have hrow : ∀ {b r'}, (t.withArtificial art r).rows.get? b = some r' →
      b = art ∧ r' = r ∨ t.rows.get? b = some r' := by
    intro b r' hb
    have hb : (t.rows.insert art r).get? b = some r' := hb
    rw [Table.get?_insert] at hb
    split at hb
    case isTrue heq => exact Or.inl ⟨heq.symm, (Option.some.inj hb).symm⟩
    · exact Or.inr hb
  refine ⟨fun hb => ?_, fun hb => ?_, h.objective.mono hnonbasic,
    fun ha => ?_⟩
  · rcases hrow hb with ⟨rfl, -⟩ | hb
    · exact Or.inl rfl
    · exact Or.inr (h.basic hb)
  · rcases hrow hb with ⟨rfl, rfl⟩ | hb
    · exact hr.mono fun x hx => ⟨hnonbasic x hx.1, hx.2⟩
    · exact (h.row hb).mono fun x hx => ⟨hnonbasic x hx.1, hx.2⟩
  · obtain rfl := Option.some.inj ha
    exact hr.mono fun x hx => hnonbasic x hx.1

/-- Adjoining an equation leaves nothing of its artificial symbol,
whatever it answers. -/
theorem adjoin {art : Symbol} (h : t.Tidy side S)
    (haux : t.auxiliary = none) (hart : art ∉ S)
    (hr : r.Within fun x => t.NonBasic S x ∧ side x.id = side art.id)
    (budget : Nat) :
    (t.adjoin budget art r).state.Tidy side S
      ∧ (t.adjoin budget art r).state.auxiliary = none := by
  unfold Tableau.adjoin
  dsimp only
  split
  case h_2 => exact ⟨h, haux⟩
  case h_1 hok =>
    have hmin := ((h.withArtificial hart hr).minimise budget .auxiliary).1
    generalize ho : t.searchWith budget art r = o at hok ⊢
    cases searchWith_eq_iff.1 ho with
    | failed | above => cases hok
    | @zero u minimised =>
        rw [minimised] at hmin
        obtain ⟨hlast, hnone⟩ := hmin.dropAuxiliary.retire rfl hok
        refine ⟨hlast.mono ?_, hnone⟩
        exact fun x hx => hx.1.resolve_left hx.2

-- =================================================== removal and targets

/-- Dropping a marker leaves no row with it. -/
theorem dropMarker {marker : Symbol} (h : t.Tidy side S)
    (ht : t.dropMarker marker = .ok t') :
    Steady side S t t' := by
  cases dropMarker_eq_iff.1 ht with
  | basic => exact ⟨h.without marker, rfl⟩
  | @released leaving r d _ _ row solved =>
      obtain ⟨hmarker, hdef⟩ := h.resolve? row solved
      refine ⟨((h.without leaving).substitute hmarker.2 hdef).mono
        fun x hx => hx.1, ?_⟩
      exact Option.isSome_map

/-- Moving a row moves a constant only. -/
theorem shiftRow {b : Symbol} (h : t.Tidy side S)
    (hr : t.rows.get? b = some r) (k : α) :
    (t.shiftRow b r k).Tidy side S := by
  refine h.of_symbols (fun x => ?_) rfl rfl
  show ((t.rows.insert b (r.shift k)).get? x).map Row.symbols = _
  rw [Table.get?_insert]
  split
  case isTrue hbx =>
    rw [← hbx, hr]
    rfl
  · rfl

/-- And so does moving a column. -/
theorem shiftColumn (h : t.Tidy side S) (s : Symbol) (k : α) :
    (t.shiftColumn s k).Tidy side S := by
  refine h.of_symbols (fun x => ?_) rfl rfl
  show ((t.rows.map _).get? x).map Row.symbols = _
  rw [Table.get?_map, Option.map_map]
  congr 1
  funext r
  show Row.symbols (if _ then _ else _) = _
  split <;> rfl

/-- Moving a target moves constants only. -/
theorem moveTarget (h : t.Tidy side S) (f : Footprint) (delta : α) :
    Steady side S t (t.moveTarget f delta) := by
  generalize ht : t.moveTarget f delta = t'
  cases moveTarget_eq_iff.1 ht with
  | marker row => exact ⟨h.shiftRow row _, rfl⟩
  | companion _ _ basic => exact ⟨h.shiftRow basic _, rfl⟩
  | column => exact ⟨h.shiftColumn f.marker delta, rfl⟩

end Tidy

end Tableau

end LinearConstraints
