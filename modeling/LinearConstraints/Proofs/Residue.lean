/-
Residue: what a redundant equality leaves behind.

A tolerant test for zero takes an equality between determined variables
for redundant although its row is left with a small constant. The row is
kept, with dummies only, and nothing repairs it if it is negative. Every
pivot puts it on the stack, wherever the pivot takes place; so a suggestion
about variables that have nothing to do with the equality fails as soon as
it has anything to repair.

The solver is compared with what there is of it on one side. A repair of
the whole does the steps of a repair of the part, and passes over rows of
the other side in between, unless it comes upon one that is short. Which of
these happens is settled from the beginning (`Jams`), since steps on one
side neither make nor repair such rows on the other.

Main statements: `Tableau.Beside.restore`, one repair;
`Divided.noDualEntering_iff`, when a suggestion fails.
-/
import LinearConstraints.Proofs.Apart
import LinearConstraints.Proofs.Transition

namespace LinearConstraints

variable {α : Type}

-- ============================================================ one part

namespace Tableau

variable {side : ℕ → Bool} {κ : Bool} {S : Set Symbol} {P : Symbol → Bool}
  {t t' u u' : Tableau α} {r : Row α} {b c s : Symbol} {rest : List Symbol}

/-- What there is of a tableau where a test holds. -/
def part (t : Tableau α) (P : Symbol → Bool) : Tableau α where
  rows := t.rows.restrict P
  objective :=
    { t.objective with cells := t.objective.cells.restrict P }
  infeasible := t.infeasible.filter P
  auxiliary := t.auxiliary

theorem sameOn_part (t : Tableau α) (P : Symbol → Bool) :
    t.SameOn P (t.part P) where
  rows := (t.rows.restrict_restrict P).symm
  objective := (t.objective.cells.restrict_restrict P).symm
  infeasible := by
    show _ = (t.infeasible.filter P).filter P
    rw [List.filter_filter]
    simp only [Bool.and_self]

theorem get?_rows_part (t : Tableau α) (P : Symbol → Bool) (b : Symbol) :
    (t.part P).rows.get? b = if P b then t.rows.get? b else none :=
  t.rows.get?_restrict P b

theorem Tidy.part [Scalar α] (h : t.Tidy side S) (P : Symbol → Bool) :
    (t.part P).Tidy side S := by
  have hnonbasic : ∀ x, t.NonBasic S x → (t.part P).NonBasic S x := by
    intro x hx
    refine ⟨hx.1, ?_⟩
    rw [get?_rows_part, hx.2, ite_self]
  have hrow : ∀ {b r}, (t.part P).rows.get? b = some r →
      t.rows.get? b = some r := by
    intro b r hr
    rw [get?_rows_part] at hr
    split at hr
    · exact hr
    · cases hr
  refine ⟨fun hr => h.basic (hrow hr), fun hr => ?_, ?_, fun ha => ?_⟩
  · exact (h.row (hrow hr)).mono fun x hx => ⟨hnonbasic x hx.1, hx.2⟩
  · intro x hx
    obtain ⟨e, he, rfl⟩ := List.mem_map.1 hx
    exact hnonbasic _
      (h.objective e.1 (List.mem_map_of_mem (List.mem_filter.1 he).1))
  · exact (h.auxiliary ha).mono hnonbasic

-- ========================================================== shortfalls

section Shortfall

variable [Scalar α]

/-- The row waits to be repaired, and is negative. -/
def Due (t : Tableau α) (b : Symbol) : Prop :=
  b ∈ t.infeasible ∧ ∃ r, t.rows.get? b = some r ∧ r.constant < 0

/-- The row is negative although it must not be, or is due. -/
def Short (t : Tableau α) (b : Symbol) : Prop :=
  (b.isExternal = false ∨ b ∈ t.infeasible)
    ∧ ∃ r, t.rows.get? b = some r ∧ r.constant < 0

theorem Due.short (h : t.Due b) : t.Short b := ⟨Or.inr h.1, h.2⟩

omit [Scalar α] in
/-- Where tableaux are the same, the same symbols wait. -/
theorem SameOn.mem_infeasible_iff (h : t.SameOn P u) (hb : P b = true) :
    b ∈ t.infeasible ↔ b ∈ u.infeasible := by
  have hmem : ∀ l : List Symbol, b ∈ l.filter P ↔ b ∈ l := fun l =>
    List.mem_filter.trans (and_iff_left hb)
  rw [← hmem, h.infeasible, hmem]

theorem SameOn.short_iff (h : t.SameOn P u) (hb : P b = true) :
    t.Short b ↔ u.Short b := by
  unfold Short
  rw [h.mem_infeasible_iff hb, h.rows.get?_eq hb]

/-- There is something to repair, and a row of the other side is short. -/
def Jams (side : ℕ → Bool) (κ : Bool) (t : Tableau α) : Prop :=
  (∃ b, side b.id ≠ κ ∧ t.Short b) ∧ ∃ b, t.Due b

/-- Taking a symbol from the stack whose row is not negative. -/
private theorem short_pass (ht : t.infeasible = b :: rest)
    (hb : c ≠ b ∨ ∀ r, t.rows.get? b = some r → ¬ r.constant < 0) :
    ({ t with infeasible := rest } : Tableau α).Short c ↔ t.Short c := by
  unfold Short
  rw [ht, List.mem_cons]
  refine and_congr_left fun hneg => or_congr_right ?_
  obtain ⟨r, hr, hneg⟩ := hneg
  have hne : c ≠ b := by
    rcases hb with hne | hb
    · exact hne
    · rintro rfl
      exact hb r hr hneg
  simp [hne]

private theorem jams_pass (ht : t.infeasible = b :: rest)
    (hb : ∀ r, t.rows.get? b = some r → ¬ r.constant < 0) :
    ({ t with infeasible := rest } : Tableau α).Jams side κ
      ↔ t.Jams side κ := by
  refine and_congr
    (exists_congr fun c => and_congr_right fun _ =>
      short_pass ht (Or.inr hb)) (exists_congr fun c => ?_)
  unfold Due
  rw [ht, List.mem_cons]
  refine and_congr_left fun hneg => ?_
  obtain ⟨r, hr, hneg⟩ := hneg
  have hne : c ≠ b := by
    rintro rfl
    exact hb r hr hneg
  simp [hne]

/-- A pivot on a row of the side leaves the rows of the other side that are
short, and finds all of them due. -/
private theorem short_exchange (h : t.Tidy side S) (hb : side b.id = κ)
    (ht : t.exchange? b s = some t') (hc : side c.id ≠ κ) :
    t'.rows.get? c = t.rows.get? c ∧ (t'.Short c ↔ t.Short c)
      ∧ (t'.Short c → t'.Due c) := by
  obtain ⟨r, d, hr, hd, rfl⟩ := exchange?_eq_some_iff.1 ht
  obtain ⟨hs, hdef⟩ := h.resolve? hr hd
  have hside : side s.id = κ := by
    rcases (Row.resolve?_within hd).1 with rfl | hmem
    · exact hb
    · exact (h.row hr s hmem).2.trans hb
  have hon := Symbol.on_not_eq_true.2 hc
  have hfree : ∀ {c r}, (t.without b).rows.get? c = some r →
      Symbol.on side (!κ) c = true → s ∉ r.symbols := by
    intro c r hr hc hmem
    have hrow := ((h.without b).row hr s hmem).2
    exact Symbol.on_not_eq_true.1 hc (hrow.symm.trans hside)
  have hwithout : (t.without b).rows.get? c = t.rows.get? c := by
    rw [get?_rows_without, if_neg]
    rintro rfl
    exact hc hb
  have hget := (SameOn.rows_install_right (Symbol.on_not_eq_false.2 hside)
    hfree d).get?_eq hon
  rw [hwithout] at hget
  have hmem : ∀ {r}, t.rows.get? c = some r →
      (c ∈ ((t.without b).install s d).infeasible
        ↔ isNegative c r = true ∨ c ∈ t.infeasible) := by
    intro r hrow
    refine mem_infeasible_substitute.trans (or_congr_left ?_)
    have hrow' := hwithout.trans hrow
    rw [get?_rows_substitute, hrow', Option.map_some,
      Row.substitute_of_not_mem (hfree hrow' hon)]
    simp
  have hshort : ((t.without b).install s d).Short c ↔ t.Short c := by
    unfold Short
    rw [← hget]
    refine and_congr_left fun hneg => ?_
    obtain ⟨r, hrow, hneg⟩ := hneg
    rw [hmem hrow]
    unfold isNegative
    cases c.isExternal <;> simp
  refine ⟨hget.symm, hshort, fun hsh => ⟨?_, hsh.2⟩⟩
  obtain ⟨hwhy, r, hrow, hneg⟩ := hshort.1 hsh
  rw [hmem hrow]
  refine hwhy.imp_left fun hext => ?_
  unfold isNegative
  rw [hext, decide_eq_true hneg]
  rfl

/-- A pivot on a row of the side leaves it the same whether the repair
jams. -/
private theorem jams_exchange (h : t.Tidy side S)
    (hstack : t.infeasible = b :: rest) (hdue : t.Due b)
    (hb : side b.id = κ)
    (ht : ({ t with infeasible := rest } : Tableau α).exchange? b s
      = some t') : t'.Jams side κ ↔ t.Jams side κ := by
  have hiff : ∀ {c}, side c.id ≠ κ →
      (t'.Short c ↔ t.Short c) ∧ (t'.Short c → t'.Due c) := by
    intro c hc
    obtain ⟨-, hshort, hnext⟩ :=
      short_exchange (h.withStack rest) hb ht hc
    have hne : c ≠ b := fun heq => hc (heq ▸ hb)
    exact ⟨hshort.trans (short_pass hstack (Or.inl hne)), hnext⟩
  constructor
  · rintro ⟨⟨c, hc, hshort⟩, -⟩
    exact ⟨⟨c, hc, (hiff hc).1.1 hshort⟩, b, hdue⟩
  · rintro ⟨⟨c, hc, hshort⟩, -⟩
    have hshort' := (hiff hc).1.2 hshort
    exact ⟨⟨c, hc, hshort'⟩, c, (hiff hc).2 hshort'⟩

/-- Nothing repairs a row of dummies. -/
theorem dualEntering?_of_onlyDummies (t : Tableau α)
    (hr : r.onlyDummies = true) : t.dualEntering? r = none := by
  have hcosts : t.costs r = [] := by
    refine List.filterMap_eq_nil_iff.2 fun c hc => ?_
    have hdummy := List.all_eq_true.1 hr c.1 (List.mem_map_of_mem hc)
    simp [hdummy]
  unfold dualEntering?
  rw [hcosts]
  rfl

end Shortfall

-- ============================================================== repair

section Beside

variable [Scalar α]

/-- The second tableau is what there is of the first on one side, and the
rows of the first that are short on the other side consist of dummies. -/
structure Beside (side : ℕ → Bool) (κ : Bool) (S : Set Symbol)
    (t u : Tableau α) : Prop where
  left : t.Tidy side S
  right : u.Tidy side S
  same : t.SameOn (Symbol.on side κ) u
  only : ∀ {b r}, u.rows.get? b = some r → side b.id = κ
  stack : ∀ x ∈ u.infeasible, side x.id = κ
  residues : ∀ {b r}, t.rows.get? b = some r → side b.id ≠ κ →
    t.Short b → r.onlyDummies = true

/-- Repaired with enough budget, the tableau gives the result, unless it
jams. -/
def Repairs (side : ℕ → Bool) (κ : Bool) (t : Tableau α)
    (result : Except Failure Unit) : Prop :=
  ∃ m, (t.Jams side κ →
      (t.restore m).result = .error .noDualEnteringSymbol)
    ∧ (¬ t.Jams side κ → (t.restore m).result = result)

section Repairs

variable {result : Except Failure Unit}

theorem restore_of_stop {n : ℕ} (h : dualStep t = .stop t' result) :
    (t.restore (n + 1)).result = result := by
  unfold restore
  rw [iterate_of_stop h]

/-- A repair that comes to an end has one result. -/
theorem restore_unique {n m : ℕ}
    (hn : (t.restore n).result ≠ .error .budgetSpent)
    (hm : (t.restore m).result ≠ .error .budgetSpent) :
    (t.restore n).result = (t.restore m).result := by
  rcases Nat.le_total n m with hle | hle
  · exact (congrArg _ (iterate_mono hle hn)).symm
  · exact congrArg _ (iterate_mono hle hm)

theorem restore_of_next {n : ℕ} (h : dualStep t = .next t') :
    t.restore (n + 1) = t'.restore n := iterate_of_next h

theorem Repairs.stop {result' : Except Failure Unit}
    (h : dualStep t = .stop t' result')
    (hjams : t.Jams side κ → result' = .error .noDualEnteringSymbol)
    (hsame : ¬ t.Jams side κ → result' = result) :
    t.Repairs side κ result :=
  ⟨1, fun hj => (restore_of_stop h).trans (hjams hj),
    fun hj => (restore_of_stop h).trans (hsame hj)⟩

theorem Repairs.next (h : dualStep t = .next t')
    (hiff : t'.Jams side κ ↔ t.Jams side κ)
    (ht : t'.Repairs side κ result) : t.Repairs side κ result := by
  obtain ⟨m, hjams, hsame⟩ := ht
  refine ⟨m + 1, ?_, ?_⟩
  · rw [restore_of_next h, ← hiff]
    exact hjams
  · rw [restore_of_next h, ← hiff]
    exact hsame

end Repairs

namespace Beside

theorem stack_eq (h : Beside side κ S t u) :
    u.infeasible = t.infeasible.filter (Symbol.on side κ) := by
  rw [h.same.infeasible]
  exact (List.filter_eq_self.2 fun x hx =>
    Symbol.on_eq_true.2 (h.stack x hx)).symm

/-- Taking symbols from the stack, and those of the side from the other. -/
theorem withStack (h : Beside side κ S t u) {l : List Symbol}
    (hl : ∀ x ∈ l, x ∈ t.infeasible) :
    Beside side κ S { t with infeasible := l }
      { u with infeasible := l.filter (Symbol.on side κ) } where
  left := h.left.withStack l
  right := h.right.withStack _
  same := { h.same with
    infeasible := by rw [List.filter_filter]; simp only [Bool.and_self] }
  only := h.only
  stack := fun x hx => Symbol.on_eq_true.1 (List.mem_filter.1 hx).2
  residues := fun hr hb hshort =>
    h.residues hr hb ⟨hshort.1.imp_right (hl _), hshort.2⟩

/-- The same symbol raises a row of the side at the least cost. -/
theorem dualEntering?_eq (h : Beside side κ S t u)
    (hr : r.Within fun x => side x.id = κ) :
    t.dualEntering? r = u.dualEntering? r :=
  h.same.dualEntering?_eq fun x hx => Symbol.on_eq_true.2 (hr x hx)

/-- A pivot on a row of the side, on both sides. -/
theorem exchange? (h : Beside side κ S t u) (hb : side b.id = κ)
    (s : Symbol) :
    (t.exchange? b s = none ∧ u.exchange? b s = none)
      ∨ ∃ t' u', t.exchange? b s = some t' ∧ u.exchange? b s = some u'
        ∧ Beside side κ S t' u' := by
  unfold Tableau.exchange?
  have hget := h.same.rows.get?_eq (Symbol.on_eq_true.2 hb)
  rcases h.left.release?_both h.right hget hb s with
    ⟨ht, hu⟩ | ⟨d, ht, hu, hside, hs, hs', hd, hd'⟩
  · rw [ht, hu]
    exact Or.inl ⟨rfl, rfl⟩
  have hexchange : t.exchange? b s = some ((t.without b).install s d) := by
    unfold Tableau.exchange?
    rw [ht]
    rfl
  rw [ht, hu]
  refine Or.inr ⟨_, _, rfl, rfl, (h.left.without b).install hs hd,
    (h.right.without b).install hs' hd',
    (h.same.without b).install (Symbol.on_eq_true.2 hside) d, ?_, ?_, ?_⟩
  · intro c r hr
    rcases row_of_install hr with ⟨rfl, -⟩ | ⟨r₀, hr₀, -⟩
    · exact hside
    · exact h.only (get?_of_without hr₀).2
  · intro x hx
    rcases mem_infeasible_substitute.1 hx with ⟨r, hr, -⟩ | hx
    · obtain ⟨r₀, hr₀, -⟩ := row_of_substitute hr
      exact h.only (get?_of_without hr₀).2
    · exact h.stack x hx
  · intro c r hr hc hshort
    obtain ⟨hrow, hiff, -⟩ := short_exchange h.left hb hexchange hc
    exact h.residues (hrow.symm.trans hr) hc (hiff.1 hshort)

/-- A row of the side is due on both sides: neither has a symbol for it, or
both make the same pivot. -/
theorem due (h : Beside side κ S t u) (hb : side b.id = κ)
    (ht : t.infeasible = b :: rest) (hr : t.rows.get? b = some r)
    (hneg : r.constant < 0) :
    (∃ f, (f = .noDualEnteringSymbol ∨ f = .absentSymbol)
        ∧ dualStep t = .stop { t with infeasible := rest } (.error f)
        ∧ ∃ u', dualStep u = .stop u' (.error f))
      ∨ ∃ t' u', dualStep t = .next t' ∧ dualStep u = .next u'
        ∧ Beside side κ S t' u' ∧ (t'.Jams side κ ↔ t.Jams side κ) := by
  have hon := Symbol.on_eq_true.2 hb
  have hu : u.infeasible = b :: rest.filter (Symbol.on side κ) := by
    rw [h.stack_eq, ht, List.filter_cons_of_pos hon]
  have hr' := (h.same.rows.get?_eq hon).symm.trans hr
  have henter := h.dualEntering?_eq
    ((h.left.row hr).mono fun x hx => hx.2.trans hb)
  have hpop := h.withStack (l := rest) fun x hx => by
    rw [ht]
    exact List.mem_cons_of_mem b hx
  cases hs : t.dualEntering? r with
  | none =>
      exact Or.inl ⟨_, Or.inl rfl,
        dualStep_eq_iff.2 (.stuck ht hr hneg hs), _,
        dualStep_eq_iff.2 (.stuck hu hr' hneg (henter.symm.trans hs))⟩
  | some s =>
      have hs' := henter.symm.trans hs
      rcases hpop.exchange? hb s with
        ⟨hnone, hnone'⟩ | ⟨t', u', ht', hu', hnext⟩
      · exact Or.inl ⟨_, Or.inr rfl,
          dualStep_eq_iff.2 (.absent ht hr hneg hs hnone), _,
          dualStep_eq_iff.2 (.absent hu hr' hneg hs' hnone')⟩
      · exact Or.inr ⟨t', u', dualStep_eq_iff.2 (.pivot ht hr hneg hs ht'),
          dualStep_eq_iff.2 (.pivot hu hr' hneg hs' hu'), hnext,
          jams_exchange h.left ht ⟨ht ▸ List.mem_cons_self .., r, hr, hneg⟩
            hb ht'⟩

/-- A row that is not due is passed over, on both sides if it is one of the
side. -/
theorem pass (h : Beside side κ S t u) (ht : t.infeasible = b :: rest)
    (hb : ∀ r, t.rows.get? b = some r → ¬ r.constant < 0) :
    (Beside side κ S { t with infeasible := rest } u)
      ∨ ∃ u', dualStep u = .next u'
        ∧ Beside side κ S { t with infeasible := rest } u' := by
  have hpop := h.withStack (l := rest) fun x hx => by
    rw [ht]
    exact List.mem_cons_of_mem b hx
  have hstack := h.stack_eq
  rw [ht] at hstack
  by_cases hside : side b.id = κ
  · have hon := Symbol.on_eq_true.2 hside
    rw [List.filter_cons_of_pos hon] at hstack
    rw [h.same.rows.get?_eq hon] at hb
    exact Or.inr ⟨_, dualStep_eq_iff.2 (.pass hstack hb), hpop⟩
  · rw [List.filter_cons_of_neg
      (by rw [Symbol.on_eq_false.2 hside]; decide)] at hstack
    rw [← hstack] at hpop
    exact Or.inl hpop

/-- A repair of the whole ends like a repair of the part, unless it jams;
then it finds no symbol for a row of the other side. -/
theorem restore (h : Beside side κ S t u) {n : ℕ}
    (hends : (u.restore n).result ≠ .error .budgetSpent)
    (hpresent : (u.restore n).result ≠ .error .absentSymbol) :
    t.Repairs side κ (u.restore n).result := by
  induction n generalizing t u with
  | zero => exact absurd rfl hends
  | succ n ihn =>
      -- Within a step of the part, the whole passes over rows elsewhere.
      obtain ⟨l, hl⟩ : ∃ l, t.infeasible = l := ⟨_, rfl⟩
      induction l generalizing t with
      | nil =>
          have hu : u.infeasible = [] := by rw [h.stack_eq, hl]; rfl
          rw [restore_of_stop (dualStep_eq_iff.2 (.done hu))]
          refine .stop (dualStep_eq_iff.2 (.done hl)) (fun hj => ?_)
            fun _ => rfl
          obtain ⟨-, b, hb, -⟩ := hj
          rw [hl] at hb
          cases hb
      | cons b rest ihl =>
          by_cases hneg : ∃ r, t.rows.get? b = some r ∧ r.constant < 0
          · obtain ⟨r, hr, hneg⟩ := hneg
            have hdue : t.Due b := ⟨hl ▸ List.mem_cons_self .., r, hr, hneg⟩
            by_cases hb : side b.id = κ
            · rcases h.due hb hl hr hneg with
                ⟨f, hf, hstep, u', hstep'⟩ |
                ⟨t', u', hstep, hstep', hnext, hiff⟩
              · rw [restore_of_stop hstep'] at hpresent ⊢
                rcases hf with rfl | rfl
                · exact .stop hstep (fun _ => rfl) fun _ => rfl
                · exact absurd rfl hpresent
              · rw [restore_of_next hstep'] at hends hpresent ⊢
                exact .next hstep hiff (ihn hnext hends hpresent)
            · -- A row of the other side is due, and nothing repairs it.
              have hstuck := dualEntering?_of_onlyDummies t
                (h.residues hr hb hdue.short)
              refine .stop (dualStep_eq_iff.2 (.stuck hl hr hneg hstuck))
                (fun _ => rfl) fun hj => ?_
              exact absurd ⟨⟨b, hb, hdue.short⟩, b, hdue⟩ hj
          · have hpass : ∀ r, t.rows.get? b = some r → ¬ r.constant < 0 :=
              fun r hr hlt => hneg ⟨r, hr, hlt⟩
            refine .next (dualStep_eq_iff.2 (.pass hl hpass))
              (jams_pass hl hpass) ?_
            rcases h.pass hl hpass with hpop | ⟨u', hstep', hpop⟩
            · exact ihl hpop rfl
            · rw [restore_of_next hstep'] at hends hpresent ⊢
              exact ihn hpop hends hpresent

/-- If the repair of the part comes to an end, then that of the whole finds
no symbol exactly if that of the part finds none, or if it jams. -/
theorem fails_iff (h : Beside side κ S t u) {n : ℕ}
    (hends : (u.restore n).result ≠ .error .budgetSpent)
    (hpresent : (u.restore n).result ≠ .error .absentSymbol) :
    (∃ n, (t.restore n).result = .error .noDualEnteringSymbol)
      ↔ (∃ n, (u.restore n).result = .error .noDualEnteringSymbol)
        ∨ t.Jams side κ := by
  obtain ⟨m, hjams, hsame⟩ := h.restore hends hpresent
  have hne : (.error .noDualEnteringSymbol : Except Failure Unit)
      ≠ .error .budgetSpent := fun heq => by cases heq
  constructor
  · rintro ⟨k, hk⟩
    refine or_iff_not_imp_right.2 fun hj => ⟨n, ?_⟩
    rw [← hsame hj] at hends ⊢
    rw [restore_unique hends (hk ▸ hne), hk]
  · rintro (⟨k, hk⟩ | hj)
    · refine ⟨m, ?_⟩
      by_cases hj : t.Jams side κ
      · exact hjams hj
      · rw [hsame hj, restore_unique hends (hk ▸ hne), hk]
    · exact ⟨m, hjams hj⟩

end Beside

/-- The part beside the whole. -/
theorem Tidy.beside_part (h : t.Tidy side S)
    (hresidues : ∀ {b r}, t.rows.get? b = some r → side b.id ≠ κ →
      t.Short b → r.onlyDummies = true) :
    Beside side κ S t (t.part (Symbol.on side κ)) where
  left := h
  right := h.part _
  same := t.sameOn_part _
  only := fun {b r} hr => by
    rw [get?_rows_part] at hr
    split at hr
    case isTrue hb => exact Symbol.on_eq_true.1 hb
    · cases hr
  stack := fun x hx => Symbol.on_eq_true.1 (List.mem_filter.1 hx).2
  residues := hresidues

/-- Moving a target of the side keeps the part beside the whole. -/
theorem Beside.moveTarget [LawfulZero α] (h : Beside side κ S t u)
    {f : Footprint} (hf : ∀ x, f.Mentions x → side x.id = κ) (delta : α) :
    Beside side κ S (t.moveTarget f delta) (u.moveTarget f delta)
      ∧ ∀ c, side c.id ≠ κ →
        ((t.moveTarget f delta).Short c ↔ t.Short c) := by
  have hmoved : ∀ {t : Tableau α}, t.Tidy side S →
      t.SameOn (Symbol.on side !κ) (t.moveTarget f delta) := by
    intro t ht
    refine .moveTarget_right
      (fun x hx => Symbol.on_not_eq_false.2 (hf x hx)) (fun hr hb hmem => ?_)
      delta
    exact Symbol.on_not_eq_true.1 hb
      ((ht.row hr _ hmem).2.symm.trans (hf _ (Or.inl rfl)))
  have hleft := hmoved h.left
  have hright := hmoved h.right
  have hshort : ∀ c, side c.id ≠ κ →
      ((t.moveTarget f delta).Short c ↔ t.Short c) := fun c hc =>
    (hleft.short_iff (Symbol.on_not_eq_true.2 hc)).symm
  refine ⟨⟨(h.left.moveTarget f delta).1, (h.right.moveTarget f delta).1,
    h.same.moveTarget (fun x hx => Symbol.on_eq_true.2 (hf x hx)) delta,
    fun {b r} hr => ?_, fun x hx => ?_, fun {b r} hr hb hs => ?_⟩, hshort⟩
  · by_contra hb
    rw [← hright.rows.get?_eq (Symbol.on_not_eq_true.2 hb)] at hr
    exact hb (h.only hr)
  · by_contra hne
    exact hne (h.stack x
      ((hright.mem_infeasible_iff (Symbol.on_not_eq_true.2 hne)).2 hx))
  · rw [← hleft.rows.get?_eq (Symbol.on_not_eq_true.2 hb)] at hr
    exact h.residues hr hb ((hshort b hb).1 hs)

end Beside

end Tableau

-- ============================================================= solvers

namespace Solver

variable [Scalar α] {d : Sides} {κ : Bool} {s : Solver α}
  {arts : List Symbol} {v : Variable}

/-- The states that commands about two sides lead to, however they end,
with the sides of the symbols: a number is on the side of the command that
gave it out. -/
inductive Divided : Sides → Solver α → Prop where
  | empty (d : Sides) : Divided d .empty
  | step {d : Sides} {s : Solver α} (budget : ℕ) (κ : Bool) (c : Command α)
      (before : Divided d s) (on : c.On d κ) :
      Divided (d.assign s.nextId κ) (s.perform budget c).state

theorem Divided.tidy (h : Divided d s) : ∃ arts, s.Tidy d arts := by
  induction h with
  | empty d => exact ⟨[], tidy_empty d⟩
  | step budget κ c _ on ih =>
      obtain ⟨arts, ih⟩ := ih
      exact ⟨_, (ih.assign κ).perform (fun i hi => if_neg (not_lt.2 hi)) on
        budget⟩

/-- What there is of a solver on one side. -/
def part (s : Solver α) (d : Sides) (κ : Bool) : Solver α where
  nextId := s.nextId
  registry := s.registry.restrict (d.hasConstraint κ)
  bindings := s.bindings.restrict (d.hasVariable κ)
  edits := s.edits.restrict (d.hasVariable κ)
  tableau := s.tableau.part (Symbol.on d.ofSymbol κ)

private theorem suggest_of_not_edited (he : s.edits.get? v = none)
    (x : α) (n : ℕ) (f : Tableau.Failure) :
    (s.perform n (.suggest v x)).result ≠ .error (.failure f) := by
  intro hf
  have hresult : (s.suggest n v x).result = .error (.failure f) := hf
  unfold suggest at hresult
  rw [he] at hresult
  cases hresult

/-- A suggestion for an edit variable fails as the repair does. -/
private theorem suggest_fails_iff {e : Edit α} (he : s.edits.get? v = some e)
    (x : α) (n : ℕ) (f : Tableau.Failure) :
    (s.perform n (.suggest v x)).result = .error (.failure f)
      ↔ ((s.tableau.moveTarget e.footprint
          (x - e.constraint.target)).restore n).result = .error f := by
  show (s.suggest n v x).result = _ ↔ _
  unfold suggest
  rw [he]
  exact failure_of_onTableau_iff ..

/-- In a state that commands about two sides lead to, let only rows of
dummies be short on the other side. If the suggestion comes to an end in
the part that there is on its own side, then in the whole it finds no
symbol to repair a row with exactly if it finds none in the part, or if a
row is short on the other side and there is anything to be repaired at
all. -/
theorem Divided.noDualEntering_iff [LawfulZero α] (h : Divided d s)
    (hv : d.ofVariable v = κ) (x : α)
    (hresidues : ∀ b r, s.tableau.rows.get? b = some r →
      d.ofSymbol b.id ≠ κ → s.tableau.Short b → r.onlyDummies = true)
    (hreturns : ∃ n, ((s.part d κ).perform n (.suggest v x)).Returned) :
    (∃ n, (s.perform n (.suggest v x)).result
        = .error (.failure .noDualEnteringSymbol))
      ↔ (∃ n, ((s.part d κ).perform n (.suggest v x)).result
          = .error (.failure .noDualEnteringSymbol))
        ∨ (∃ b, d.ofSymbol b.id ≠ κ ∧ s.tableau.Short b)
          ∧ ∃ e, s.edits.get? v = some e
            ∧ ∃ b, (s.tableau.moveTarget e.footprint
              (x - e.constraint.target)).Due b := by
  obtain ⟨arts, htidy⟩ := h.tidy
  have hedit : (s.part d κ).edits.get? v = s.edits.get? v := by
    refine (Table.get?_restrict _ _ _).trans ?_
    rw [Sides.hasVariable_eq_true hv]
    rfl
  cases he : s.edits.get? v with
  | none =>
      constructor
      · exact fun ⟨n, hn⟩ => absurd hn (suggest_of_not_edited he x n _)
      · rintro (⟨n, hn⟩ | ⟨-, e, he', -⟩)
        · exact absurd hn (suggest_of_not_edited (hedit.trans he) x n _)
        · cases he'
  | some e =>
      have hfails := suggest_fails_iff he x
      have hfails' := suggest_fails_iff (hedit.trans he) x
      have hside : ∀ y, e.footprint.Mentions y → d.ofSymbol y.id = κ :=
        fun y hy => ((htidy.edited he).2 y hy).2.trans hv
      obtain ⟨hbeside, hshort⟩ :=
        (htidy.tableau.beside_part fun hr hb => hresidues _ _ hr hb).moveTarget
          hside (x - e.constraint.target)
      obtain ⟨n, hn⟩ := hreturns
      have hno : ∀ f, f = .budgetSpent ∨ f = .absentSymbol →
          (((s.part d κ).tableau.moveTarget e.footprint
            (x - e.constraint.target)).restore n).result ≠ .error f := by
        intro f hf heq
        have hfatal := hn _ ((hfails' n f).2 heq)
        rcases hf with rfl | rfl <;> cases hfatal
      refine (exists_congr fun n => hfails n _).trans <|
        (hbeside.fails_iff (hno _ (Or.inl rfl)) (hno _ (Or.inr rfl))).trans <|
        or_congr (exists_congr fun n => (hfails' n _).symm) <|
        and_congr (exists_congr fun b => and_congr_right (hshort b))
          ⟨fun hdue => ⟨e, rfl, hdue⟩, ?_⟩
      rintro ⟨e', heq, hdue⟩
      obtain rfl := Option.some.inj heq
      exact hdue

-- ============================================================= example

/-- Pins the slider at a value. -/
def pinAt (id : ℕ) (value : Rat) : Constraint TolerantRat :=
  .relate id (.ofVariable slider) .equal (.ofConstant value)

/-- The slider is pinned twice, the second time slightly off, and a label
that has nothing to do with it may be edited. -/
def pinnedOff : Solver TolerantRat × List (Except (Error TolerantRat) Unit)
    :=
  (empty : Solver TolerantRat).run 10
    [.add (pinAt 0 4), .add (pinAt 1 (4 - 5 / 1000000000)),
      .addEdit 2 label .strong]

/-- Both variables occur in a registered constraint. -/
def Shares (s : Solver α) (v w : Variable) : Prop :=
  ∃ c ∈ s.constraints, v ∈ c.expression.vars ∧ w ∈ c.expression.vars

/-- All commands are answered, and the second pin is kept as a row of
dummies with a constant that is not zero. No chain of constraints leads
from the label to it; and yet the label cannot be moved. -/
theorem noDualEntering_of_residue :
    (∀ a ∈ pinnedOff.2, a = .ok ())
      ∧ (∃ g r, pinnedOff.1.registry.get? 1 = some g
        ∧ pinnedOff.1.tableau.rows.get? g.footprint.marker = some r
        ∧ r.onlyDummies = true ∧ r.constant < 0
        ∧ ∀ v ∈ g.constraint.expression.vars,
          ¬ Relation.ReflTransGen pinnedOff.1.Shares label v)
      ∧ (pinnedOff.1.perform 10 (.suggest label 1)).result
        = .error (.failure .noDualEnteringSymbol) := by
  have hanswers : ∀ a ∈ pinnedOff.2, a.isOk = true := by decide +kernel
  have hregistered : (pinnedOff.1.registry.get? 1).isSome := by
    decide +kernel
  obtain ⟨g, hg⟩ := Option.isSome_iff_exists.1 hregistered
  have hbasic : ∀ g ∈ pinnedOff.1.registry.get? 1,
      (pinnedOff.1.tableau.rows.get? g.footprint.marker).isSome := by
    decide +kernel
  obtain ⟨r, hr⟩ := Option.isSome_iff_exists.1 (hbasic g hg)
  have hrow : ∀ g ∈ pinnedOff.1.registry.get? 1,
      ∀ r ∈ pinnedOff.1.tableau.rows.get? g.footprint.marker,
        r.onlyDummies = true ∧ r.constant < 0 := by decide +kernel
  have hother : ∀ g ∈ pinnedOff.1.registry.get? 1,
      ∀ v ∈ g.constraint.expression.vars, v ≠ label := by decide +kernel
  -- The label shares its only constraint with no other variable.
  have hshares : ∀ v, pinnedOff.1.Shares label v → v = label := by
    have hall : ∀ c ∈ pinnedOff.1.constraints,
        label ∈ c.expression.vars → ∀ v ∈ c.expression.vars, v = label := by
      decide +kernel
    rintro v ⟨c, hc, hlabel, hv⟩
    exact hall c hc hlabel v hv
  have hchain : ∀ v, Relation.ReflTransGen pinnedOff.1.Shares label v →
      v = label := by
    intro v hv
    induction hv with
    | refl => rfl
    | tail _ hlast ih => exact hshares _ (ih ▸ hlast)
  refine ⟨fun a ha => ?_, ⟨g, r, hg, hr, (hrow g hg r hr).1,
    (hrow g hg r hr).2, fun v hv hch => hother g hg v hv (hchain v hch)⟩, ?_⟩
  · have hok := hanswers a ha
    cases a with
    | ok x => rfl
    | error e => cases hok
  · have hedited : (pinnedOff.1.edits.get? label).isSome := by
      decide +kernel
    obtain ⟨e, he⟩ := Option.isSome_iff_exists.1 hedited
    have hfails : ∀ e ∈ pinnedOff.1.edits.get? label,
        ((pinnedOff.1.tableau.moveTarget e.footprint
          (1 - e.constraint.target)).restore 10).result
            = .error .noDualEnteringSymbol := by decide +kernel
    exact (suggest_fails_iff he 1 10 _).2 (hfails e he)

/-- The division with the label and its edit on a side of their own. -/
def besideLabel : Sides :=
  ⟨fun _ => true, fun v => decide (v = label), fun i => decide (i = 2)⟩

/-- The pins leave a residue, and the label, which could be moved without
them, cannot be moved. -/
theorem pinnedOff_noDualEntering_iff :
    ∃ d, Divided d pinnedOff.1 ∧ d.ofVariable label = true
      ∧ (∀ b r, pinnedOff.1.tableau.rows.get? b = some r →
          d.ofSymbol b.id ≠ true → pinnedOff.1.tableau.Short b →
            r.onlyDummies = true)
      ∧ (∃ n, ((pinnedOff.1.part d true).perform n
          (.suggest label 1)).result = .ok ())
      ∧ ∃ n, (pinnedOff.1.perform n (.suggest label 1)).result
          = .error (.failure .noDualEnteringSymbol) := by
  let s₁ := ((empty : Solver TolerantRat).perform 10 (.add (pinAt 0 4))).state
  let s₂ := (s₁.perform 10 (.add (pinAt 1 (4 - 5 / 1000000000)))).state
  let d := ((besideLabel.assign 0 false).assign s₁.nextId false).assign
    s₂.nextId true
  have hdivided : Divided d pinnedOff.1 := by
    refine .step 10 true _ (.step 10 false _ (.step 10 false _ (.empty
      besideLabel) ⟨rfl, ?_⟩) ⟨rfl, ?_⟩) ⟨rfl, rfl⟩ <;> decide +kernel
  have hlabel : d.ofVariable label = true := by decide +kernel
  have hrows : ∀ e ∈ pinnedOff.1.tableau.rows.entries,
      d.ofSymbol e.1.id ≠ true → e.2.constant < 0 →
        e.2.onlyDummies = true := by decide +kernel
  have hresidues : ∀ b r, pinnedOff.1.tableau.rows.get? b = some r →
      d.ofSymbol b.id ≠ true → pinnedOff.1.tableau.Short b →
        r.onlyDummies = true := by
    rintro b r hr hb ⟨-, r', hr', hneg⟩
    obtain rfl := Option.some.inj (hr.symm.trans hr')
    exact hrows (b, r) (Table.get?_eq_some_iff.1 hr) hb hneg
  have hpart : ((pinnedOff.1.part d true).perform 10
      (.suggest label 1)).result.isOk = true := by decide +kernel
  have hok := Outcome.result_eq_ok hpart
  have hreturns : ((pinnedOff.1.part d true).perform 10
      (.suggest label 1)).Returned := fun e he => by
    rw [hok] at he
    cases he
  have hshort : ∃ b, d.ofSymbol b.id ≠ true
      ∧ pinnedOff.1.tableau.Short b := by
    have hfound : ∃ e ∈ pinnedOff.1.tableau.rows.entries,
        d.ofSymbol e.1.id ≠ true ∧ e.1.isExternal = false
          ∧ e.2.constant < 0 := by decide +kernel
    obtain ⟨⟨b, r⟩, he, hb, hext, hneg⟩ := hfound
    exact ⟨b, hb, Or.inl hext, r, Table.get?_eq_some_iff.2 he, hneg⟩
  have hdue : ∃ e, pinnedOff.1.edits.get? label = some e
      ∧ ∃ b, (pinnedOff.1.tableau.moveTarget e.footprint
        (1 - e.constraint.target)).Due b := by
    have hedited : (pinnedOff.1.edits.get? label).isSome := by
      decide +kernel
    obtain ⟨e, he⟩ := Option.isSome_iff_exists.1 hedited
    have hwaits : ∀ e ∈ pinnedOff.1.edits.get? label,
        ∃ f ∈ (pinnedOff.1.tableau.moveTarget e.footprint
            (1 - e.constraint.target)).rows.entries,
          f.1 ∈ (pinnedOff.1.tableau.moveTarget e.footprint
            (1 - e.constraint.target)).infeasible
          ∧ f.2.constant < 0 := by decide +kernel
    obtain ⟨⟨b, r⟩, hf, hin, hneg⟩ := hwaits e he
    exact ⟨e, he, b, hin, r, Table.get?_eq_some_iff.2 hf, hneg⟩
  exact ⟨d, hdivided, hlabel, hresidues, ⟨10, hok⟩,
    (hdivided.noDualEntering_iff hlabel 1 hresidues ⟨10, hreturns⟩).2
      (Or.inr ⟨hshort, hdue⟩)⟩

end Solver

end LinearConstraints
