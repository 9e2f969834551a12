/-
Tables: finite maps that remember the order in which their keys arrived.

A table is a list of key-value pairs with distinct keys. Writing to a key
that is present replaces its value where it stands; writing to a new key
appends it; erasing a key closes the gap. The order is part of what a
table is: a solver that looks for the first row or cell of some kind gives
different answers on different orders.

Main statements: what each operation does to `get?`, to `keys` and to the
size.
-/

namespace LinearConstraints

/-- A finite map from `κ` to `β` in the order of first insertion. -/
@[ext] structure Table (κ β : Type) where
  /-- The pairs, oldest key first. -/
  entries : List (κ × β)
  /-- Each key occurs once. -/
  nodup : (entries.map Prod.fst).Nodup
  deriving DecidableEq

namespace Table

variable {κ β γ : Type}

-- ==================================================== lists of pairs

section Pairs

variable [DecidableEq κ]

/-- The value paired with the first occurrence of a key. -/
def lookup (k : κ) : List (κ × β) → Option β
  | [] => none
  | (k', v) :: rest => if k' = k then some v else lookup k rest

/-- Replaces the value at a key in place, or appends the pair. -/
def write (k : κ) (v : β) : List (κ × β) → List (κ × β)
  | [] => [(k, v)]
  | (k', v') :: rest =>
      if k' = k then (k, v) :: rest else (k', v') :: write k v rest

/-- Drops the pairs at a key. -/
def drop (k : κ) (l : List (κ × β)) : List (κ × β) :=
  l.filter fun e => decide (e.1 ≠ k)

theorem keys_write (k : κ) (v : β) (l : List (κ × β)) :
    (write k v l).map Prod.fst
      = if k ∈ l.map Prod.fst then l.map Prod.fst
        else l.map Prod.fst ++ [k] := by
  induction l with
  | nil => simp [write]
  | cons e rest ih =>
      obtain ⟨k', v'⟩ := e
      by_cases h : k' = k
      · simp [write, h]
      · rw [write, if_neg h, List.map_cons, ih]
        have h' : ¬ k = k' := fun e => h e.symm
        by_cases hm : k ∈ rest.map Prod.fst <;> simp [hm, h']

theorem keys_drop (k : κ) (l : List (κ × β)) :
    (drop k l).map Prod.fst
      = (l.map Prod.fst).filter fun k' => decide (k' ≠ k) := by
  rw [drop, List.filter_map]
  rfl

theorem lookup_write (k k' : κ) (v : β) (l : List (κ × β)) :
    lookup k' (write k v l) = if k = k' then some v else lookup k' l := by
  induction l with
  | nil => simp [write, lookup]
  | cons e rest ih =>
      obtain ⟨j, w⟩ := e
      by_cases hj : j = k
      · by_cases hk : k = k' <;> simp [write, lookup, hj, hk]
      · rw [write, if_neg hj, lookup, lookup, ih]
        by_cases hjk : j = k'
        · have hk : ¬ k = k' := fun e => hj (hjk.trans e.symm)
          simp [hjk, hk]
        · simp [hjk]

theorem lookup_drop (k k' : κ) (l : List (κ × β)) :
    lookup k' (drop k l) = if k = k' then none else lookup k' l := by
  induction l with
  | nil => simp [drop, lookup]
  | cons e rest ih =>
      obtain ⟨j, w⟩ := e
      unfold drop at ih ⊢
      by_cases hj : j = k
      · subst hj
        by_cases hk : j = k' <;> simp_all [lookup]
      · by_cases hjk : j = k'
        · subst hjk
          simp_all [lookup, Ne.symm hj, eq_comm]
        · simp_all [lookup]

theorem lookup_map (f : κ → β → γ) (k : κ) (l : List (κ × β)) :
    lookup k (l.map fun e => (e.1, f e.1 e.2)) = (lookup k l).map (f k) := by
  induction l with
  | nil => rfl
  | cons e rest ih =>
      obtain ⟨j, w⟩ := e
      by_cases h : j = k
      · subst h
        simp [lookup]
      · simp [lookup, h, ih]

theorem lookup_eq_some_iff {k : κ} {v : β} {l : List (κ × β)}
    (h : (l.map Prod.fst).Nodup) : lookup k l = some v ↔ (k, v) ∈ l := by
  induction l with
  | nil => simp [lookup]
  | cons e rest ih =>
      obtain ⟨j, w⟩ := e
      rw [List.map_cons, List.nodup_cons] at h
      by_cases hj : j = k
      · subst hj
        have hout : (j, v) ∉ rest := fun hm =>
          h.1 (List.mem_map.2 ⟨(j, v), hm, rfl⟩)
        simp [lookup, hout, eq_comm]
      · have hj' : ¬ k = j := fun e => hj e.symm
        simp [lookup, hj, hj', ih h.2]

theorem lookup_isSome_iff {k : κ} {l : List (κ × β)} :
    (lookup k l).isSome ↔ k ∈ l.map Prod.fst := by
  induction l with
  | nil => simp [lookup]
  | cons e rest ih =>
      obtain ⟨j, w⟩ := e
      by_cases h : j = k
      · simp [lookup, h]
      · have h' : ¬ k = j := fun e => h e.symm
        rw [lookup, if_neg h, ih, List.map_cons, List.mem_cons]
        simp [h']

end Pairs

-- ======================================================== operations

/-- The table with no entries. -/
def empty : Table κ β where
  entries := []
  nodup := List.nodup_nil

instance : Inhabited (Table κ β) := ⟨empty⟩

/-- The keys, oldest first. -/
def keys (t : Table κ β) : List κ := t.entries.map Prod.fst

/-- The values, in the order of their keys. -/
def values (t : Table κ β) : List β := t.entries.map Prod.snd

/-- The number of entries. -/
def size (t : Table κ β) : Nat := t.entries.length

/-- The table holds nothing. -/
def isEmpty (t : Table κ β) : Bool := t.entries.isEmpty

/-- Applies a function to every value; keys and order stay. -/
def map (f : κ → β → γ) (t : Table κ β) : Table κ γ where
  entries := t.entries.map fun e => (e.1, f e.1 e.2)
  nodup := by
    have h : (t.entries.map fun e => (e.1, f e.1 e.2)).map Prod.fst
        = t.entries.map Prod.fst := by
      rw [List.map_map]
      rfl
    rw [h]
    exact t.nodup

@[simp] theorem keys_empty : (empty : Table κ β).keys = [] := rfl

@[simp] theorem keys_map (f : κ → β → γ) (t : Table κ β) :
    (t.map f).keys = t.keys := by
  unfold keys map
  rw [List.map_map]
  rfl

theorem nodup_keys (t : Table κ β) : t.keys.Nodup := t.nodup

theorem length_keys (t : Table κ β) : t.keys.length = t.size :=
  List.length_map _

@[simp] theorem size_map (f : κ → β → γ) (t : Table κ β) :
    (t.map f).size = t.size := List.length_map _

variable [DecidableEq κ]

/-- The value at a key. -/
def get? (t : Table κ β) (k : κ) : Option β := lookup k t.entries

/-- The key is present. -/
def contains (t : Table κ β) (k : κ) : Bool := (t.get? k).isSome

/-- Sets the value at a key: in place if the key is present, else at the
end. -/
def insert (t : Table κ β) (k : κ) (v : β) : Table κ β where
  entries := write k v t.entries
  nodup := by
    rw [keys_write]
    by_cases h : k ∈ t.entries.map Prod.fst
    · rw [if_pos h]
      exact t.nodup
    · rw [if_neg h]
      refine List.nodup_append.2 ⟨t.nodup, by simp, ?_⟩
      intro a ha b hb he
      rw [List.mem_singleton] at hb
      exact h (hb ▸ he ▸ ha)

/-- Removes a key; the order of the others stays. -/
def erase (t : Table κ β) (k : κ) : Table κ β where
  entries := drop k t.entries
  nodup := by
    rw [keys_drop]
    exact t.nodup.sublist List.filter_sublist

-- ============================================== what `get?` observes

@[simp] theorem get?_empty (k : κ) : (empty : Table κ β).get? k = none :=
  rfl

theorem get?_insert (t : Table κ β) (k k' : κ) (v : β) :
    (t.insert k v).get? k' = if k = k' then some v else t.get? k' :=
  lookup_write k k' v t.entries

theorem get?_insert_eq_none_iff {t : Table κ β} {k k' : κ} {v : β} :
    (t.insert k v).get? k' = none ↔ k ≠ k' ∧ t.get? k' = none := by
  rw [get?_insert]
  by_cases h : k = k' <;> simp [h]

theorem get?_erase (t : Table κ β) (k k' : κ) :
    (t.erase k).get? k' = if k = k' then none else t.get? k' :=
  lookup_drop k k' t.entries

@[simp] theorem get?_map (f : κ → β → γ) (t : Table κ β) (k : κ) :
    (t.map f).get? k = (t.get? k).map (f k) :=
  lookup_map f k t.entries

theorem get?_eq_some_iff {t : Table κ β} {k : κ} {v : β} :
    t.get? k = some v ↔ (k, v) ∈ t.entries :=
  lookup_eq_some_iff t.nodup

/-- A key with a value is not one without. -/
theorem ne_of_get? {t : Table κ β} {k k' : κ} {v : β}
    (h : t.get? k = some v) (h' : t.get? k' = none) : k ≠ k' := by
  intro heq
  subst heq
  rw [h'] at h
  cases h

theorem contains_iff {t : Table κ β} {k : κ} :
    t.contains k = true ↔ k ∈ t.keys :=
  lookup_isSome_iff

theorem mem_keys_iff {t : Table κ β} {k : κ} :
    k ∈ t.keys ↔ ∃ v, t.get? k = some v :=
  contains_iff.symm.trans Option.isSome_iff_exists

-- ============================================== what `keys` observes

theorem keys_insert (t : Table κ β) (k : κ) (v : β) :
    (t.insert k v).keys = if k ∈ t.keys then t.keys else t.keys ++ [k] :=
  keys_write k v t.entries

theorem keys_erase (t : Table κ β) (k : κ) :
    (t.erase k).keys = t.keys.filter fun k' => decide (k' ≠ k) :=
  keys_drop k t.entries

/-- Erasing a key that has just been added gives the table back. -/
theorem erase_insert {t : Table κ β} {k : κ} (h : k ∉ t.keys) (v : β) :
    (t.insert k v).erase k = t := by
  have key : ∀ l : List (κ × β), k ∉ l.map Prod.fst →
      drop k (write k v l) = l := by
    intro l
    induction l with
    | nil => intro _; simp [write, drop]
    | cons e rest ih =>
        intro hl
        obtain ⟨k', v'⟩ := e
        rw [List.map_cons, List.mem_cons, not_or] at hl
        have hk : ¬ k' = k := fun e => hl.1 e.symm
        rw [write, if_neg hk, drop, List.filter_cons_of_pos]
        · exact congrArg _ (ih hl.2)
        · exact decide_eq_true hk
  exact Table.ext (key t.entries h)

-- =============================================================== sizes

/-- A new key adds an entry. -/
theorem size_insert_of_none {t : Table κ β} {k : κ} (h : t.get? k = none)
    (v : β) : (t.insert k v).size = t.size + 1 := by
  have hk : k ∉ t.keys := by
    intro hmem
    obtain ⟨w, hw⟩ := mem_keys_iff.1 hmem
    rw [h] at hw
    cases hw
  rw [← length_keys, ← length_keys, keys_insert, if_neg hk,
    List.length_append, List.length_singleton]

/-- A key that is there adds none. -/
theorem size_insert_of_some {t : Table κ β} {k : κ} {w : β}
    (h : t.get? k = some w) (v : β) : (t.insert k v).size = t.size := by
  have hk : k ∈ t.keys := mem_keys_iff.2 ⟨_, h⟩
  rw [← length_keys, ← length_keys, keys_insert, if_pos hk]

/-- Erasing a key that is there takes an entry away. -/
theorem size_erase_of_some {t : Table κ β} {k : κ} {v : β}
    (h : t.get? k = some v) : (t.erase k).size + 1 = t.size := by
  have hk : k ∈ t.keys := mem_keys_iff.2 ⟨_, h⟩
  have hlen := List.length_erase_of_mem hk
  have hpos := List.length_pos_of_mem hk
  rw [t.nodup_keys.erase_eq_filter] at hlen
  have hkeys : (t.erase k).keys = t.keys.filter (· != k) := by
    rw [keys_erase]
    refine List.filter_congr fun x _ => ?_
    by_cases hx : x = k <;> simp [hx]
  rw [← length_keys, ← length_keys, hkeys, hlen]
  omega

-- ======================================================= mapped values

/-- Writing a mapped value. -/
theorem insert_map (f : β → γ) (t : Table κ β) (k : κ) (v : β) :
    (t.map fun _ v => f v).insert k (f v)
      = (t.insert k v).map fun _ v => f v := by
  have key : ∀ l : List (κ × β),
      write k (f v) (l.map fun e => (e.1, f e.2))
        = (write k v l).map fun e => (e.1, f e.2) := by
    intro l
    induction l with
    | nil => rfl
    | cons e l ih =>
        simp only [List.map_cons, write, ih]
        split <;> rfl
  exact Table.ext (key t.entries)

theorem erase_map (f : β → γ) (t : Table κ β) (k : κ) :
    (t.map fun _ v => f v).erase k = (t.erase k).map fun _ v => f v := by
  refine Table.ext ?_
  show drop k (t.entries.map _) = (drop k t.entries).map _
  unfold drop
  rw [List.filter_map]
  rfl

-- ============================================================== scans

/-- The keys of the entries that pass a test. -/
theorem mem_keys_filter_iff {t : Table κ β} {p : κ × β → Bool} {k : κ} :
    k ∈ (t.entries.filter p).map Prod.fst
      ↔ ∃ v, t.get? k = some v ∧ p (k, v) = true := by
  rw [List.mem_map]
  constructor
  · intro hin
    obtain ⟨⟨k', v⟩, hmem, rfl⟩ := hin
    obtain ⟨hmem, hp⟩ := List.mem_filter.1 hmem
    exact ⟨v, get?_eq_some_iff.2 hmem, hp⟩
  · intro hin
    obtain ⟨v, hv, hp⟩ := hin
    exact ⟨(k, v), List.mem_filter.2 ⟨get?_eq_some_iff.1 hv, hp⟩, rfl⟩

/-- What a scan of the entries collects: the keys whose values pass a
test, each with a quantity. -/
theorem mem_filterMap_iff {t : Table κ β} {p : κ → β → Bool}
    {f : κ → β → γ} {k : κ} {c : γ} :
    ((k, c) ∈ t.entries.filterMap fun e =>
        if p e.1 e.2 then some (e.1, f e.1 e.2) else none)
      ↔ ∃ v, t.get? k = some v ∧ p k v = true ∧ c = f k v := by
  rw [List.mem_filterMap]
  constructor
  · intro hin
    obtain ⟨⟨k', v⟩, hmem, h⟩ := hin
    dsimp only at h
    split at h
    case isTrue htest =>
      have hp := Option.some.inj h
      injection hp with hk hc
      subst hk
      exact ⟨v, get?_eq_some_iff.2 hmem, htest, hc.symm⟩
    · cases h
  · intro hin
    obtain ⟨v, hv, htest, rfl⟩ := hin
    exact ⟨(k, v), get?_eq_some_iff.1 hv, if_pos htest⟩

end Table

end LinearConstraints
