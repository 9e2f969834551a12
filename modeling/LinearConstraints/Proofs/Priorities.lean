/-
Priorities: what the order of two strengths says about them.

A strength packs three priorities into one number, each scaled by a weight
and kept from zero to a thousand. Packing adds them up with positive
factors, so a strength rises with each of them, and as none goes beyond a
thousand it ends at `required`, which only three full priorities reach.

The factors are a thousand apart, so the priorities are the digits of the
strength to the base of a thousand, as long as they are digits: whole, and
below the base. A priority of a thousand is not; it weighs as much as one
unit of the next. Where they are, a leading digit decides before what
follows it, and comparing two strengths is comparing their priorities
lexicographically. That is one statement about a leading digit, used for
the strong priority and again for the medium one.

Main statements: `compare_leading`, that a leading digit decides;
`Digits.compare_value`, that strengths made of digits are ordered as
these; and `packing_keeps_order`, the whole.
-/
import Mathlib.Data.Prod.Lex
import Mathlib.Data.Rat.Cast.Order
import LinearConstraints.Proofs.Exact
import LinearConstraints.Strength

namespace LinearConstraints.Strength

-- ==================================================== one priority

section Component

variable {weight : Rat}

/-- A priority is scaled, then cut off at zero and at a thousand. -/
theorem component_eq (weight v : Rat) :
    component weight v = max 0 (min (v * weight) 1000) :=
  Scalar.clamp_eq_max_min (by decide) _

theorem component_nonneg (weight v : Rat) : 0 ≤ component weight v :=
  Scalar.clamp_nonneg (by decide) _

theorem component_le (weight v : Rat) : component weight v ≤ 1000 := by
  rw [component_eq]
  exact max_le (by decide) (min_le_right ..)

/-- A priority counts for no less when it rises. -/
theorem component_mono (hweight : 0 ≤ weight) {v v' : Rat} (h : v ≤ v') :
    component weight v ≤ component weight v' := by
  rw [component_eq, component_eq]
  exact max_le_max_left 0
    (min_le_min_right 1000 (mul_le_mul_of_nonneg_right h hweight))

/-- A priority is full if it is a thousand before it is cut off. -/
theorem thousand_le_component_iff {v : Rat} :
    1000 ≤ component weight v ↔ 1000 ≤ v * weight := by
  have hpos : ¬ (1000 : Rat) ≤ 0 := by decide
  rw [component_eq, le_max_iff, le_min_iff, or_iff_right hpos,
    and_iff_left le_rfl]

/-- Inside the interval nothing is cut off. -/
theorem component_of_mem {v : Rat} (h : v * weight ∈ Set.Icc 0 1000) :
    component weight v = v * weight := by
  rw [component_eq, min_eq_left h.2, max_eq_right h.1]

end Component

-- ========================================================= packing

-- From here on `a`, `b` and `c` are the strong, the medium and the weak
-- priority.
variable {a b c weight a' b' c' weight' : Rat}

theorem value_ofComponents (a b c weight : Rat) :
    (ofComponents a b c weight).value
      = component weight a * 1000000 + component weight b * 1000
        + component weight c := rfl

/-- A strength does not fall when priorities rise. -/
theorem value_ofComponents_mono (hweight : 0 ≤ weight) (ha : a ≤ a')
    (hb : b ≤ b') (hc : c ≤ c') :
    (ofComponents a b c weight).value
      ≤ (ofComponents a' b' c' weight).value := by
  have ha := component_mono hweight ha
  have hb := component_mono hweight hb
  have hc := component_mono hweight hc
  rw [value_ofComponents, value_ofComponents]
  linarith

theorem value_ofComponents_nonneg (a b c weight : Rat) :
    0 ≤ (ofComponents a b c weight).value := by
  have ha := component_nonneg weight a
  have hb := component_nonneg weight b
  have hc := component_nonneg weight c
  rw [value_ofComponents]
  linarith

/-- A strength made of priorities goes no further than `required`. -/
theorem value_ofComponents_le (a b c weight : Rat) :
    (ofComponents a b c weight).value
      ≤ (required : Strength Rat).value := by
  have ha := component_le weight a
  have hb := component_le weight b
  have hc := component_le weight c
  rw [value_ofComponents]
  show _ ≤ (1001001000 : Rat)
  linarith

/-- Clipping keeps the strengths up to `required`. -/
theorem clip_of_mem {s : Strength Rat} (h₀ : 0 ≤ s.value)
    (h₁ : s.value ≤ (required : Strength Rat).value) : s.clip = s := by
  have hclamp : Scalar.clamp (required : Strength Rat).value s.value
      = s.value := by
    rw [Scalar.clamp_eq_max_min (h₀.trans h₁), min_eq_left h₁,
      max_eq_right h₀]
  exact congrArg Strength.mk hclamp

/-- Only three full priorities add up to `required`. -/
theorem isRequired_ofComponents_iff :
    (ofComponents a b c weight).isRequired = true
      ↔ 1000 ≤ a * weight ∧ 1000 ≤ b * weight ∧ 1000 ≤ c * weight := by
  have ha := component_le weight a
  have hb := component_le weight b
  have hc := component_le weight c
  rw [← thousand_le_component_iff, ← thousand_le_component_iff,
    ← thousand_le_component_iff, isRequired, decide_eq_true_iff,
    value_ofComponents]
  show (1001001000 : Rat) ≤ _ ↔ _
  constructor
  · intro h
    exact ⟨by linarith, by linarith, by linarith⟩
  · rintro ⟨ha', hb', hc'⟩
    linarith

-- ========================================================== digits

/-- Strengths are ordered as their values are. -/
theorem compare?_eq_some (s t : Strength Rat) :
    compare? s t = some (compare s.value t.value) := by
  show (if s.value < t.value then some Ordering.lt
    else if decide (s.value = t.value) = true then some .eq
    else if t.value < s.value then some .gt else none) = _
  rcases lt_trichotomy s.value t.value with h | h | h
  · rw [if_pos h, compare_lt_iff_lt.2 h]
  · rw [if_neg h.not_lt, if_pos (decide_eq_true h),
      compare_eq_iff_eq.2 h]
  · rw [if_neg h.asymm, decide_eq_false h.ne', if_neg Bool.false_ne_true,
      if_pos h, compare_gt_iff_gt.2 h]

/-- A greater leading digit makes up for any remainder below the base. -/
theorem leading_lt {base r r' : Rat} {m n : ℤ} (h : m < n)
    (hr : r ∈ Set.Ico 0 base) (hr' : 0 ≤ r') :
    m * base + r < n * base + r' := by
  have hstep : (m : Rat) + 1 ≤ n := by exact_mod_cast h
  have hbase : 0 ≤ base := hr.1.trans hr.2.le
  calc m * base + r
      < m * base + base := by linarith [hr.2]
    _ = (m + 1) * base := by ring
    _ ≤ n * base := mul_le_mul_of_nonneg_right hstep hbase
    _ ≤ n * base + r' := le_add_of_nonneg_right hr'

/-- Comparing two numbers compares their leading digits, and what follows
only if these are the same. -/
theorem compare_leading {base r r' : Rat} (m n : ℤ)
    (hr : r ∈ Set.Ico 0 base) (hr' : r' ∈ Set.Ico 0 base) :
    compare (m * base + r) (n * base + r')
      = (compare (m : Rat) n).then (compare r r') := by
  rcases lt_trichotomy m n with h | rfl | h
  · rw [compare_lt_iff_lt.2 (leading_lt h hr hr'.1),
      compare_lt_iff_lt.2 (Int.cast_lt.2 h)]
    rfl
  · rw [← cmp_eq_compare, cmp_add_left, cmp_eq_compare,
      compare_eq_iff_eq.2 rfl]
    rfl
  · rw [compare_gt_iff_gt.2 (leading_lt h hr' hr.1),
      compare_gt_iff_gt.2 (Int.cast_lt.2 h)]
    rfl

/-- Triples compare as their first entries, and as later ones only where
these are the same. -/
theorem compare_toLex (x y z x' y' z' : Rat) :
    compare (toLex (x, toLex (y, z))) (toLex (x', toLex (y', z')))
      = (compare x x').then ((compare y y').then (compare z z')) := rfl

/-- The priorities as they are packed, compared from the strong one on. -/
def priorities (a b c weight : Rat) : Rat ×ₗ Rat ×ₗ Rat :=
  toLex (component weight a, toLex (component weight b, component weight c))

/-- Priorities that are packed as digits: the strong and the medium one
are whole, and the medium and the weak one are at most 999. The weak one
is the last and may be broken. -/
structure Digits (a b c weight : Rat) : Prop where
  strong_whole : ∃ n : ℤ, component weight a = n
  medium_whole : ∃ n : ℤ, component weight b = n
  medium_le : component weight b ≤ 999
  weak_le : component weight c ≤ 999

namespace Digits

/-- The weak priority is below one unit of the medium one. -/
theorem weak_mem (h : Digits a b c weight) :
    component weight c ∈ Set.Ico 0 1000 :=
  ⟨component_nonneg .., h.weak_le.trans_lt (by decide)⟩

/-- What follows the strong priority is below one unit of it. -/
theorem lower_mem (h : Digits a b c weight) :
    component weight b * 1000 + component weight c
      ∈ Set.Ico 0 1000000 := by
  have hb := component_nonneg weight b
  have hc := component_nonneg weight c
  have hb' := h.medium_le
  have hc' := h.weak_le
  exact ⟨by linarith, by linarith⟩

/-- Strengths made of digits are ordered as their priorities. -/
theorem compare_value (h : Digits a b c weight)
    (h' : Digits a' b' c' weight') :
    compare (ofComponents a b c weight).value
        (ofComponents a' b' c' weight').value
      = compare (priorities a b c weight)
        (priorities a' b' c' weight') := by
  obtain ⟨m, hm⟩ := h.strong_whole
  obtain ⟨m', hm'⟩ := h'.strong_whole
  obtain ⟨n, hn⟩ := h.medium_whole
  obtain ⟨n', hn'⟩ := h'.medium_whole
  have hlower := h.lower_mem
  have hlower' := h'.lower_mem
  rw [priorities, priorities, compare_toLex, value_ofComponents,
    value_ofComponents, add_assoc, add_assoc]
  -- What follows the strong digit is itself a number led by a digit, and
  -- must be seen as one before the strong digits are taken off.
  rw [hn] at hlower ⊢
  rw [hn'] at hlower' ⊢
  rw [hm, hm', compare_leading m m' hlower hlower',
    compare_leading n n' h.weak_mem h'.weak_mem]

end Digits

/-- A thousand is no digit: a full weak priority ties with one unit of the
medium one. -/
example : compare? (ofComponents 0 0 1000 (1 : Rat)) medium = some .eq := by
  decide +kernel

/-- Priorities of which scaling leaves nothing to cut off. -/
structure Unclamped (a b c weight : Rat) : Prop where
  strong : a * weight ∈ Set.Icc 0 1000
  medium : b * weight ∈ Set.Icc 0 1000
  weak : c * weight ∈ Set.Icc 0 1000

/-- With one weight for both, priorities that are not cut off are packed in
the order in which they are given. -/
theorem Unclamped.compare_priorities (h : Unclamped a b c weight)
    (h' : Unclamped a' b' c' weight) (hweight : 0 < weight) :
    compare (priorities a b c weight) (priorities a' b' c' weight)
      = compare (toLex (a, toLex (b, c))) (toLex (a', toLex (b', c'))) := by
  have hscale (v v' : Rat) :
      compare (v * weight) (v' * weight) = compare v v' := by
    rw [← cmp_eq_compare, cmp_mul_pos_right hweight, cmp_eq_compare]
  rw [priorities, priorities, component_of_mem h.strong,
    component_of_mem h.medium, component_of_mem h.weak,
    component_of_mem h'.strong, component_of_mem h'.medium,
    component_of_mem h'.weak, compare_toLex, compare_toLex, hscale, hscale,
    hscale]

-- ==================================================== all together

/-- Strengths follow the priorities they are made of. A strength does not
fall when a priority rises, and it is between zero and `required`, where
clipping keeps it. It is required exactly if each priority, scaled, is at
least a thousand. Two strengths made of digits, each with a weight of its
own, are ordered as their priorities are, lexicographically from the
strong one on. With one weight for both, and nothing cut off, that is the
order of the priorities as they are given. -/
theorem packing_keeps_order (hweight : 0 ≤ weight) (a b c : Rat) :
    (∀ a' b' c', a ≤ a' → b ≤ b' → c ≤ c' →
      (ofComponents a b c weight).value
        ≤ (ofComponents a' b' c' weight).value)
    ∧ 0 ≤ (ofComponents a b c weight).value
    ∧ (ofComponents a b c weight).value ≤ (required : Strength Rat).value
    ∧ (ofComponents a b c weight).clip = ofComponents a b c weight
    ∧ ((ofComponents a b c weight).isRequired = true
      ↔ 1000 ≤ a * weight ∧ 1000 ≤ b * weight ∧ 1000 ≤ c * weight)
    ∧ (∀ a' b' c' weight',
      Digits a b c weight → Digits a' b' c' weight' →
        compare? (ofComponents a b c weight) (ofComponents a' b' c' weight')
          = some (compare (priorities a b c weight)
            (priorities a' b' c' weight')))
    ∧ ∀ a' b' c', Digits a b c weight → Digits a' b' c' weight →
        Unclamped a b c weight → Unclamped a' b' c' weight → 0 < weight →
        compare? (ofComponents a b c weight) (ofComponents a' b' c' weight)
          = some (compare (toLex (a, toLex (b, c)))
            (toLex (a', toLex (b', c')))) := by
  have hnonneg := value_ofComponents_nonneg a b c weight
  have hle := value_ofComponents_le a b c weight
  refine ⟨fun a' b' c' ha hb hc => value_ofComponents_mono hweight ha hb hc,
    hnonneg, hle, clip_of_mem hnonneg hle, isRequired_ofComponents_iff,
    fun a' b' c' weight' h h' => ?_, fun a' b' c' h h' hu hu' hpos => ?_⟩
  · rw [compare?_eq_some, h.compare_value h']
  · rw [compare?_eq_some, h.compare_value h',
      hu.compare_priorities hu' hpos]

/-- With a weight of two, 999 units of the medium and of the weak priority
stay below a single strong one, also as they are given, and below more of
the medium priority. -/
theorem full_digits_stay_below :
    compare? (ofComponents 0 (999 / 2) (999 / 2) (2 : Rat))
        (ofComponents (1 / 2) 0 0 2) = some .lt
      ∧ compare? (ofComponents 0 (999 / 2) (999 / 2) (2 : Rat))
          (ofComponents (1 / 2) 0 0 2)
        = some (compare (toLex ((0 : Rat), toLex ((999 / 2 : Rat),
            (999 / 2 : Rat)))) (toLex (1 / 2, toLex (0, 0))))
      ∧ (ofComponents 0 (999 / 2) (999 / 2) (2 : Rat)).value
        ≤ (ofComponents 0 500 (999 / 2) (2 : Rat)).value := by
  obtain ⟨hmono, -, -, -, -, hdigits, hgiven⟩ :=
    packing_keeps_order (show (0 : Rat) ≤ 2 by decide) 0 (999 / 2) (999 / 2)
  have h : Digits 0 (999 / 2) (999 / 2) 2 :=
    ⟨⟨0, by decide +kernel⟩, ⟨999, by decide +kernel⟩, by decide +kernel,
      by decide +kernel⟩
  have h' : Digits (1 / 2) 0 0 2 :=
    ⟨⟨1, by decide +kernel⟩, ⟨0, by decide +kernel⟩, by decide +kernel,
      by decide +kernel⟩
  have hu : Unclamped 0 (999 / 2) (999 / 2) 2 := by
    constructor <;> exact ⟨by decide +kernel, by decide +kernel⟩
  have hu' : Unclamped (1 / 2) 0 0 2 := by
    constructor <;> exact ⟨by decide +kernel, by decide +kernel⟩
  refine ⟨(hdigits _ _ _ _ h h').trans (by decide +kernel),
    hgiven _ _ _ h h' hu hu' (by decide), ?_⟩
  exact hmono _ _ _ le_rfl (by decide +kernel) le_rfl

end LinearConstraints.Strength
