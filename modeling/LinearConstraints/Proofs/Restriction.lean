/-
Restriction: what is left of tables and tableaux on one side.

Two tables are the same on some keys if they hold the same entries there,
in the same order; what they hold elsewhere, and how it is interleaved,
does not count. Two tableaux are the same on some symbols if their rows,
the cells of their objectives and their stacks are. Constants of the
objective do not count, since nothing asks for them.

A table operation at a key keeps tables the same if both carry it out, and
leaves a table the same elsewhere. A scan that passes over the other
entries sees no difference.

Main statements: `Table.SameOn.filterMap_eq`, by which scans agree;
`Tableau.SameOn.substitute` and `Tableau.SameOn.substitute_right`.
-/
import LinearConstraints.Proofs.Checked

namespace LinearConstraints

variable {α : Type}

-- ============================================================== tables

namespace Table

variable {κ β γ : Type} {p q : κ → Bool} {t u v : Table κ β}

/-- The entries whose keys pass a test, in their order. -/
def restrict (t : Table κ β) (p : κ → Bool) : Table κ β where
  entries := t.entries.filter fun e => p e.1
  nodup := t.nodup.sublist (List.filter_sublist.map Prod.fst)

theorem get?_restrict [DecidableEq κ] (t : Table κ β) (p : κ → Bool)
    (k : κ) : (t.restrict p).get? k = if p k then t.get? k else none := by
  refine Option.ext fun b => ?_
  rw [get?_eq_some_iff]
  show _ ∈ t.entries.filter _ ↔ _
  rw [List.mem_filter, ← get?_eq_some_iff]
  split
  case isTrue hk => exact and_iff_left hk
  case isFalse hk => exact ⟨fun h => absurd h.2 hk, fun h => by cases h⟩

theorem restrict_restrict (t : Table κ β) (p : κ → Bool) :
    (t.restrict p).restrict p = t.restrict p := by
  refine Table.ext ?_
  show (t.entries.filter _).filter _ = t.entries.filter _
  rw [List.filter_filter]
  simp only [Bool.and_self]

/-- The tables hold the same entries at the keys that pass a test. -/
def SameOn (p : κ → Bool) (t u : Table κ β) : Prop :=
  t.restrict p = u.restrict p

namespace SameOn

theorem refl (t : Table κ β) : t.SameOn p t := rfl

theorem symm (h : t.SameOn p u) : u.SameOn p t := Eq.symm h

theorem trans (h : t.SameOn p u) (h' : u.SameOn p v) : t.SameOn p v :=
  Eq.trans h h'

theorem entries_eq (h : t.SameOn p u) :
    t.entries.filter (fun e => p e.1) = u.entries.filter fun e => p e.1 :=
  congrArg entries h

/-- Tests that agree on the keys there are make no difference. -/
theorem congr (h : t.SameOn p u) (ht : ∀ k ∈ t.keys, p k = q k)
    (hu : ∀ k ∈ u.keys, p k = q k) : t.SameOn q u := by
  refine Table.ext ?_
  calc t.entries.filter (fun e => q e.1)
      = t.entries.filter (fun e => p e.1) :=
        List.filter_congr fun e he => (ht e.1 (List.mem_map_of_mem he)).symm
    _ = u.entries.filter (fun e => p e.1) := h.entries_eq
    _ = u.entries.filter (fun e => q e.1) :=
        List.filter_congr fun e he => hu e.1 (List.mem_map_of_mem he)

-- --------------------------------------------------------------- scans

/-- A scan that passes over what the other keys hold. -/
theorem filterMap_eq [DecidableEq κ] (h : t.SameOn p u)
    (f : κ × β → Option γ)
    (ht : ∀ {k v}, t.get? k = some v → p k = false → f (k, v) = none)
    (hu : ∀ {k v}, u.get? k = some v → p k = false → f (k, v) = none) :
    t.entries.filterMap f = u.entries.filterMap f := by
  have hscan : ∀ t : Table κ β,
      (∀ {k v}, t.get? k = some v → p k = false → f (k, v) = none) →
      t.entries.filterMap f
        = (t.entries.filter fun e => p e.1).filterMap f := by
    intro t ht
    rw [List.filterMap_filter]
    refine List.filterMap_congr fun e he => ?_
    split
    · rfl
    case isFalse hp =>
      exact ht (get?_eq_some_iff.2 he) (Bool.eq_false_of_not_eq_true hp)
  rw [hscan t ht, hscan u hu, h.entries_eq]

theorem filter_eq [DecidableEq κ] (h : t.SameOn p u) (f : κ × β → Bool)
    (ht : ∀ {k v}, t.get? k = some v → p k = false → f (k, v) = false)
    (hu : ∀ {k v}, u.get? k = some v → p k = false → f (k, v) = false) :
    t.entries.filter f = u.entries.filter f := by
  have hguard : ∀ {e : κ × β}, f e = false → Option.guard f e = none :=
    fun he => by rw [Option.guard, if_neg (by rw [he]; decide)]
  rw [← List.filterMap_eq_filter]
  exact h.filterMap_eq _ (fun hk hp => hguard (ht hk hp))
    fun hk hp => hguard (hu hk hp)

theorem find?_eq [DecidableEq κ] (h : t.SameOn p u) (f : κ × β → Bool)
    (ht : ∀ {k v}, t.get? k = some v → p k = false → f (k, v) = false)
    (hu : ∀ {k v}, u.get? k = some v → p k = false → f (k, v) = false) :
    t.entries.find? f = u.entries.find? f := by
  rw [← List.head?_filter, ← List.head?_filter, h.filter_eq f ht hu]

-- -------------------------------------------------------------- writes

theorem map (h : t.SameOn p u) (f : κ → β → γ) :
    (t.map f).SameOn p (u.map f) := by
  have hmap : ∀ t : Table κ β, ((t.map f).restrict p).entries
      = (t.entries.filter fun e => p e.1).map fun e => (e.1, f e.1 e.2) := by
    intro t
    show (t.entries.map _).filter _ = _
    rw [List.filter_map]
    rfl
  refine Table.ext ?_
  rw [hmap, hmap, h.entries_eq]

variable [DecidableEq κ]

/-- A write is seen if its key passes the test. -/
private theorem filter_write (k : κ) (b : β) (l : List (κ × β)) :
    (write k b l).filter (fun e => p e.1)
      = if p k then write k b (l.filter fun e => p e.1)
        else l.filter fun e => p e.1 := by
  induction l with
  | nil => cases hk : p k <;> simp [write, hk]
  | cons e l ih =>
      obtain ⟨j, c⟩ := e
      by_cases hj : j = k
      · subst hj
        cases hk : p j <;> simp [write, hk]
      · cases hp : p j <;> cases hk : p k <;>
          simp [write, hj, hp, hk, ih]

/-- Writing where the test fails. -/
theorem insert_right {k : κ} (hk : p k = false) (t : Table κ β) (b : β) :
    t.SameOn p (t.insert k b) := by
  refine Table.ext (Eq.trans ?_ (filter_write k b t.entries).symm)
  rw [hk]
  rfl

/-- Writing the same on both sides. -/
theorem insert (h : t.SameOn p u) (k : κ) (b : β) :
    (t.insert k b).SameOn p (u.insert k b) := by
  refine Table.ext ((filter_write k b t.entries).trans ?_)
  rw [h.entries_eq]
  exact (filter_write k b u.entries).symm

theorem erase (h : t.SameOn p u) (k : κ) :
    (t.erase k).SameOn p (u.erase k) := by
  have herase : ∀ t : Table κ β, ((t.erase k).restrict p).entries
      = drop k (t.entries.filter fun e => p e.1) := by
    intro t
    show (drop k t.entries).filter _ = _
    unfold drop
    rw [List.filter_filter, List.filter_filter]
    simp only [Bool.and_comm]
  refine Table.ext ?_
  rw [herase, herase, h.entries_eq]

theorem erase_right {k : κ} (hk : p k = false) (t : Table κ β) :
    t.SameOn p (t.erase k) := by
  refine Table.ext ?_
  show t.entries.filter _ = (drop k t.entries).filter _
  unfold drop
  rw [List.filter_filter]
  refine List.filter_congr fun e _ => ?_
  by_cases he : e.1 = k
  · rw [he, hk]
    rfl
  · simp [he]

/-- Functions that differ only where the test fails. -/
theorem map_congr {f g : κ → β → γ}
    (h : ∀ {k b}, t.get? k = some b → p k = true → f k b = g k b) :
    (t.map f).SameOn p (t.map g) := by
  refine Table.ext ?_
  show (t.entries.map _).filter _ = (t.entries.map _).filter _
  rw [List.filter_map, List.filter_map]
  refine List.map_congr_left fun e he => ?_
  obtain ⟨he, hp⟩ := List.mem_filter.1 he
  exact Prod.ext rfl (h (get?_eq_some_iff.2 he) hp)

/-- Values that change only where the test fails. -/
theorem map_right {f : κ → β → β}
    (h : ∀ {k b}, t.get? k = some b → p k = true → f k b = b) :
    t.SameOn p (t.map f) := by
  have hid : (t.map fun _ b => b) = t := Table.ext (List.map_id _)
  have hsame := map_congr (p := p) (t := t) (f := fun _ b => b) (g := f)
    fun hb hk => (h hb hk).symm
  rwa [hid] at hsame

-- -------------------------------------------------------------- lookups

theorem get?_eq (h : t.SameOn p u) {k : κ} (hk : p k = true) :
    t.get? k = u.get? k := by
  have hget : ∀ t : Table κ β, t.get? k = (t.restrict p).get? k := by
    intro t
    rw [get?_restrict, if_pos hk]
  rw [hget t, hget u]
  exact congrArg (·.get? k) h

theorem contains_eq (h : t.SameOn p u) {k : κ} (hk : p k = true) :
    t.contains k = u.contains k :=
  congrArg Option.isSome (h.get?_eq hk)

end SameOn

end Table

-- =============================================================== forms

namespace Row

variable {P : Symbol → Bool} {r r' d : Row α} {s : Symbol}

/-- The forms have the same cells where the test holds. -/
def SameOn (P : Symbol → Bool) (r r' : Row α) : Prop :=
  r.cells.SameOn P r'.cells

namespace SameOn

theorem refl (r : Row α) : r.SameOn P r := rfl

theorem symm (h : r.SameOn P r') : r'.SameOn P r := Eq.symm h

theorem trans (h : r.SameOn P r') (h' : r'.SameOn P d) : r.SameOn P d :=
  Eq.trans h h'

theorem discard (h : r.SameOn P r') (s : Symbol) :
    (r.discard s).SameOn P (r'.discard s) :=
  Table.SameOn.erase h s

theorem discard_right (hs : P s = false) (r : Row α) :
    r.SameOn P (r.discard s) :=
  Table.SameOn.erase_right hs r.cells

variable [Scalar α]

theorem coefficient_eq (h : r.SameOn P r') (hs : P s = true) :
    r.coefficient s = r'.coefficient s :=
  congrArg (Option.getD · 0) (Table.SameOn.get?_eq h hs)

theorem addCell_right (hs : P s = false) (r : Row α) (k : α) :
    r.SameOn P (r.addCell s k) := by
  show r.cells.SameOn P (if _ then _ else _)
  split
  · exact Table.SameOn.erase_right hs r.cells
  · exact Table.SameOn.insert_right hs r.cells _

theorem addCell (h : r.SameOn P r') (s : Symbol) (k : α) :
    (r.addCell s k).SameOn P (r'.addCell s k) := by
  cases hs : P s with
  | true =>
      show Table.SameOn P (if _ then _ else _) (if _ then _ else _)
      rw [h.coefficient_eq hs]
      split
      · exact Table.SameOn.erase h s
      · exact Table.SameOn.insert h s _
  | false =>
      exact ((addCell_right hs r k).symm.trans h).trans
        (addCell_right hs r' k)

theorem addRow (h : r.SameOn P r') (d : Row α) (k : α) :
    (r.addRow d k).SameOn P (r'.addRow d k) := by
  have key : ∀ (l : List (Symbol × α)) (r r' : Row α), r.SameOn P r' →
      (l.foldl (fun acc c => acc.addCell c.1 (c.2 * k)) r).SameOn P
        (l.foldl (fun acc c => acc.addCell c.1 (c.2 * k)) r') := by
    intro l
    induction l with
    | nil => exact fun _ _ h => h
    | cons c l ih => exact fun r r' h => ih _ _ (h.addCell c.1 _)
  exact key d.cells.entries (r.shift _) (r'.shift _) h

theorem addRow_right (hd : d.Within fun x => P x = false) (r : Row α)
    (k : α) : r.SameOn P (r.addRow d k) := by
  have key : ∀ (l : List (Symbol × α)) (r : Row α),
      (∀ c ∈ l, P c.1 = false) →
      r.SameOn P (l.foldl (fun acc c => acc.addCell c.1 (c.2 * k)) r) := by
    intro l
    induction l with
    | nil => exact fun r _ => refl r
    | cons c l ih =>
        intro r hl
        obtain ⟨hc, hl⟩ := List.forall_mem_cons.1 hl
        exact (addCell_right hc r _).trans (ih _ hl)
  exact key d.cells.entries (r.shift _) fun c hc =>
    hd c.1 (List.mem_map_of_mem hc)

theorem substitute (h : r.SameOn P r') (hs : P s = true) (d : Row α) :
    (r.substitute s d).SameOn P (r'.substitute s d) := by
  unfold Row.substitute
  rw [Table.SameOn.get?_eq h hs]
  split
  · exact h
  · exact (h.discard s).addRow d _

theorem substitute_right (hs : P s = false)
    (hd : d.Within fun x => P x = false) (r : Row α) :
    r.SameOn P (r.substitute s d) := by
  unfold Row.substitute
  split
  · exact refl r
  · exact (discard_right hs r).trans (addRow_right hd _ _)

end SameOn

variable [Scalar α]

/-- A substitution leaves a row that does not mention the symbol. -/
theorem substitute_of_not_mem (h : s ∉ r.symbols) (d : Row α) :
    r.substitute s d = r := by
  unfold Row.substitute
  split
  · rfl
  case h_2 a ha => exact absurd (mem_symbols_iff.2 ⟨a, ha⟩) h

omit [Scalar α] in
/-- Discarding a cell that is not there. -/
theorem discard_of_not_mem (h : s ∉ r.symbols) : r.discard s = r := by
  have hcells : r.cells.erase s = r.cells := Table.ext <|
    List.filter_eq_self.2 fun e he => decide_eq_true fun heq =>
      h (heq ▸ List.mem_map_of_mem he)
  unfold Row.discard
  rw [hcells]

/-- No symbol where the test holds lowers the form as it grows. -/
def Idle (P : Symbol → Bool) (o : Row α) : Prop :=
  ∀ x k, o.cells.get? x = some k → P x = true → x.isDummy = false →
    ¬ k < 0

theorem Idle.congr (h : r.Idle P) (hr : r.SameOn P r') : r'.Idle P :=
  fun x k hx hp => h x k ((Table.SameOn.get?_eq hr hp).trans hx) hp

end Row

-- ============================================================ tableaux

namespace Tableau

variable {P Q : Symbol → Bool} {t u v : Tableau α} {s : Symbol}
  {r d : Row α}

/-- The tableaux have the same rows where the test holds, the same cells
of the objective, and the same symbols waiting. -/
structure SameOn (P : Symbol → Bool) (t u : Tableau α) : Prop where
  rows : t.rows.SameOn P u.rows
  objective : t.objective.SameOn P u.objective
  infeasible : t.infeasible.filter P = u.infeasible.filter P

/-- Where the test holds no row is negative and no symbol waits. -/
structure Quiet (P : Symbol → Bool) (t : Tableau α) [Scalar α] : Prop where
  rows : ∀ {b r}, t.rows.get? b = some r → P b = true →
    isNegative b r = false
  infeasible : t.infeasible.filter P = []

theorem Quiet.congr [Scalar α] (h : t.Quiet P) (htu : t.SameOn P u) :
    u.Quiet P where
  rows := fun hr hb => h.rows ((htu.rows.get?_eq hb).trans hr) hb
  infeasible := htu.infeasible.symm.trans h.infeasible

namespace SameOn

theorem refl (t : Tableau α) : t.SameOn P t := ⟨.refl _, .refl _, rfl⟩

theorem symm (h : t.SameOn P u) : u.SameOn P t :=
  ⟨h.rows.symm, h.objective.symm, h.infeasible.symm⟩

theorem trans (h : t.SameOn P u) (h' : u.SameOn P v) : t.SameOn P v :=
  ⟨h.rows.trans h'.rows, h.objective.trans h'.objective,
    h.infeasible.trans h'.infeasible⟩

/-- Tests that agree on the symbols there are make no difference while
nothing waits. -/
theorem congr {side : ℕ → Bool} {S : Set Symbol} (h : t.SameOn P u)
    (ht : t.Tidy side S) (hu : u.Tidy side S)
    (hPQ : ∀ x ∈ S, P x = Q x) (hstack : t.infeasible = [])
    (hstack' : u.infeasible = []) : t.SameOn Q u := by
  have hkeys : ∀ {t : Tableau α}, t.Tidy side S →
      ∀ b ∈ t.rows.keys, P b = Q b := by
    intro t ht b hb
    obtain ⟨r, hr⟩ := Table.mem_keys_iff.1 hb
    exact hPQ b (ht.basic hr)
  refine ⟨h.rows.congr (hkeys ht) (hkeys hu),
    Table.SameOn.congr h.objective
      (fun x hx => hPQ x (ht.objective x hx).1)
      fun x hx => hPQ x (hu.objective x hx).1, ?_⟩
  rw [hstack, hstack']

theorem without (h : t.SameOn P u) (s : Symbol) :
    (t.without s).SameOn P (u.without s) :=
  { h with rows := h.rows.erase s }

theorem without_right (hs : P s = false) (t : Tableau α) :
    t.SameOn P (t.without s) :=
  { refl t with rows := .erase_right hs t.rows }

/-- What a scan of the rows puts on the stack, where the test holds. -/
private theorem filter_pushed (rows : Table Symbol (Row α))
    (f : Symbol × Row α → Bool) (l : List Symbol) :
    ((((rows.entries.filter f).map Prod.fst).reverse) ++ l).filter P
      = (((rows.entries.filter fun e => P e.1).filter f).map
          Prod.fst).reverse ++ l.filter P := by
  rw [List.filter_append, List.filter_reverse, List.filter_map,
    List.filter_filter, List.filter_filter]
  congr 4
  funext e
  exact Bool.and_comm _ _

/-- Scanning tables that are the same where the test holds. -/
theorem pushed {rows rows' : Table Symbol (Row α)} {l l' : List Symbol}
    (h : rows.SameOn P rows') (hl : l.filter P = l'.filter P)
    (f : Symbol × Row α → Bool) :
    ((((rows.entries.filter f).map Prod.fst).reverse) ++ l).filter P
      = ((((rows'.entries.filter f).map Prod.fst).reverse) ++ l').filter P
    := by
  rw [filter_pushed, filter_pushed, h.entries_eq, hl]

/-- A scan that finds nothing where the test holds. -/
theorem pushed_right {rows : Table Symbol (Row α)} (l : List Symbol)
    {f : Symbol × Row α → Bool}
    (h : ∀ {b r}, rows.get? b = some r → P b = true → f (b, r) = false) :
    l.filter P
      = ((((rows.entries.filter f).map Prod.fst).reverse) ++ l).filter P
    := by
  have hnone : (rows.entries.filter fun e => P e.1).filter f = [] := by
    refine List.filter_eq_nil_iff.2 fun e he => ?_
    obtain ⟨he, hp⟩ := List.mem_filter.1 he
    rw [h (Table.get?_eq_some_iff.2 he) hp]
    exact Bool.false_ne_true
  rw [filter_pushed, hnone]
  rfl

variable [Scalar α]

theorem substitute (h : t.SameOn P u) (hs : P s = true) (d : Row α) :
    (t.substitute s d).SameOn P (u.substitute s d) where
  rows := h.rows.map _
  objective := h.objective.substitute hs d
  infeasible := pushed (h.rows.map _) h.infeasible _

theorem install (h : t.SameOn P u) (hs : P s = true) (d : Row α) :
    (t.install s d).SameOn P (u.install s d) :=
  { h.substitute hs d with rows := (h.substitute hs d).rows.insert s d }

/-- Where the test holds, making a symbol basic elsewhere leaves the rows,
which do not mention it. -/
theorem rows_install_right (hs : P s = false)
    (hrows : ∀ {b r}, t.rows.get? b = some r → P b = true →
      s ∉ r.symbols) (d : Row α) :
    t.rows.SameOn P (t.install s d).rows :=
  (Table.SameOn.map_right fun hr hb =>
    Row.substitute_of_not_mem (hrows hr hb) d).trans (.insert_right hs _ d)

/-- Substituting a symbol elsewhere, where the rows do not mention it. -/
theorem substitute_right (hs : P s = false)
    (hd : d.Within fun x => P x = false) (hquiet : t.Quiet P)
    (hrows : ∀ {b r}, t.rows.get? b = some r → P b = true →
      s ∉ r.symbols) : t.SameOn P (t.substitute s d) where
  rows := .map_right fun hr hb => Row.substitute_of_not_mem (hrows hr hb) d
  objective := .substitute_right hs hd _
  infeasible := by
    refine pushed_right _ fun {b r'} hr' hb => ?_
    obtain ⟨r, hr, rfl⟩ := row_of_substitute (d := d) (s := s) hr'
    rw [Row.substitute_of_not_mem (hrows hr hb)]
    exact hquiet.rows hr hb

theorem install_right (hs : P s = false)
    (hd : d.Within fun x => P x = false) (hquiet : t.Quiet P)
    (hrows : ∀ {b r}, t.rows.get? b = some r → P b = true →
      s ∉ r.symbols) : t.SameOn P (t.install s d) :=
  { substitute_right hs hd hquiet hrows with
    rows := rows_install_right hs hrows d }

/-- The same symbol raises a row at the least cost. -/
theorem dualEntering?_eq (h : t.SameOn P u)
    (hr : r.Within fun x => P x = true) :
    t.dualEntering? r = u.dualEntering? r := by
  refine congrArg Scalar.leastRatio (List.filterMap_congr fun c hc => ?_)
  rw [h.objective.coefficient_eq (hr c.1 (List.mem_map_of_mem hc))]

-- -------------------------------------------------------------- targets

theorem shiftRow (h : t.SameOn P u) (b : Symbol) (r : Row α) (k : α) :
    (t.shiftRow b r k).SameOn P (u.shiftRow b r k) where
  rows := h.rows.insert b _
  objective := h.objective
  infeasible := by
    show List.filter _ (if _ then _ else _)
      = List.filter _ (if _ then _ else _)
    split
    · rw [List.filter_cons, List.filter_cons, h.infeasible]
    · exact h.infeasible

theorem shiftColumn (h : t.SameOn P u) (s : Symbol) (k : α) :
    (t.shiftColumn s k).SameOn P (u.shiftColumn s k) where
  rows := h.rows.map _
  objective := h.objective
  infeasible := pushed (h.rows.map _) h.infeasible _

/-- The row that moves is one where the test holds. -/
theorem moveTarget (h : t.SameOn P u) {f : Footprint}
    (hf : ∀ x, f.Mentions x → P x = true) (delta : α) :
    (t.moveTarget f delta).SameOn P (u.moveTarget f delta) := by
  have hbind : (f.companion.bind fun x => (t.rows.get? x).map (x, ·))
      = f.companion.bind fun x => (u.rows.get? x).map (x, ·) := by
    cases hc : f.companion with
    | none => rfl
    | some x =>
        show (t.rows.get? x).map _ = (u.rows.get? x).map _
        rw [h.rows.get?_eq (hf x (Or.inr hc))]
  unfold Tableau.moveTarget
  rw [← h.rows.get?_eq (hf f.marker (Or.inl rfl)), ← hbind]
  split
  · exact h.shiftRow _ _ _
  · split
    · exact h.shiftRow _ _ _
    · exact h.shiftColumn _ _

theorem shiftRow_right {b : Symbol} (hb : P b = false) (t : Tableau α)
    (r : Row α) (k : α) : t.SameOn P (t.shiftRow b r k) where
  rows := .insert_right hb _ _
  objective := .refl _
  infeasible := by
    show _ = List.filter _ (if _ then _ else _)
    split
    · rw [List.filter_cons_of_neg (by rw [hb]; decide)]
    · rfl

theorem shiftColumn_right [LawfulZero α]
    (hrows : ∀ {b r}, t.rows.get? b = some r → P b = true →
      s ∉ r.symbols) (k : α) : t.SameOn P (t.shiftColumn s k) := by
  have hzero : ∀ {b r}, t.rows.get? b = some r → P b = true →
      r.coefficient s = 0 :=
    fun hr hb => Row.coefficient_of_not_mem (hrows hr hb)
  have hsame : t.rows.SameOn P (t.shiftColumn s k).rows := by
    refine .map_right fun hr hb => ?_
    simp [hzero hr hb, LawfulZero.beq]
  refine ⟨hsame, .refl _, pushed_right _ fun hr hb => ?_⟩
  simp [hzero ((hsame.get?_eq hb).trans hr) hb, LawfulZero.beq]

/-- The rows where the test holds do not mention what moves. -/
theorem moveTarget_right [LawfulZero α] {f : Footprint}
    (hf : ∀ x, f.Mentions x → P x = false)
    (hrows : ∀ {b r}, t.rows.get? b = some r → P b = true →
      f.marker ∉ r.symbols) (delta : α) :
    t.SameOn P (t.moveTarget f delta) := by
  generalize ht' : t.moveTarget f delta = t'
  cases moveTarget_eq_iff.1 ht' with
  | marker => exact shiftRow_right (hf _ (Or.inl rfl)) t _ _
  | companion _ second => exact shiftRow_right (hf _ (Or.inr second)) t _ _
  | column => exact shiftColumn_right hrows _

end SameOn

theorem auxiliary_moveTarget [Scalar α] (t : Tableau α) (f : Footprint)
    (delta : α) : (t.moveTarget f delta).auxiliary = t.auxiliary := by
  generalize ht' : t.moveTarget f delta = t'
  cases moveTarget_eq_iff.1 ht' <;> rfl

end Tableau

end LinearConstraints
