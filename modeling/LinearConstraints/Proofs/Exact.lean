/-
Exact arithmetic: what the operations of a scalar are on the rationals.

Every definition of this library is written over an arbitrary scalar. On
the rationals each test has its plain meaning: near zero is zero, every
quotient may win a ratio test, and the winner of a ratio test is a least
one. The statements here are all that later proofs need to know of the
scalar behind a definition.

Main statements: `leastRatio_spec` and `leastRatio_eq_none`.
-/
import Mathlib.Algebra.Order.Field.Basic
import Mathlib.Algebra.Order.Field.Rat
import Mathlib.Tactic.FieldSimp
import Mathlib.Tactic.Linarith
import Mathlib.Tactic.Ring
import LinearConstraints.Scalar.Ratio
import LinearConstraints.Scalar.Rational

namespace LinearConstraints.Scalar

-- ============================================================== tests

/-- Only zero is near zero. -/
theorem nearZero_iff {v : Rat} : nearZero v = true ↔ v = 0 :=
  decide_eq_true_iff

theorem not_beq_zero_iff {v : Rat} : (!(v == 0)) = true ↔ v ≠ 0 := by
  rw [Bool.not_eq_true', beq_eq_false_iff_ne]

/-- Clamping cuts a value off above and below. -/
theorem clamp_eq_max_min {top : Rat} (h : 0 ≤ top) (v : Rat) :
    clamp top v = max 0 (min v top) := by
  show (if (0 : Rat) < v then if v ≤ top then v else top else 0) = _
  split
  case isTrue hv =>
    split
    case isTrue hle => rw [min_eq_left hle, max_eq_right hv.le]
    case isFalse hle =>
      rw [min_eq_right (not_le.1 hle).le, max_eq_right h]
  case isFalse hv => rw [max_eq_left (min_le_of_left_le (not_lt.1 hv))]

/-- Clamping leaves nothing below zero. -/
theorem clamp_nonneg {top : Rat} (h : 0 ≤ top) (v : Rat) :
    0 ≤ clamp top v := by
  rw [clamp_eq_max_min h]
  exact le_max_left ..

-- ======================================================== ratio tests

variable {κ : Type}

/-- The better of two candidates is no worse than either. -/
private theorem le_of_better {best : Option (κ × Rat)} {a c : κ × Rat}
    (h : better best a = some c) :
    c.2 ≤ a.2 ∧ ∀ b, best = some b → c.2 ≤ b.2 := by
  cases best with
  | none =>
      have hc : some a = some c := h
      injection hc with hc
      subst hc
      exact ⟨le_refl _, fun b hb => by cases hb⟩
  | some b =>
      have hc : (if a.2 < b.2 then some a else some b) = some c := h
      by_cases hab : a.2 < b.2
      · rw [if_pos hab] at hc
        injection hc with hc
        subst hc
        refine ⟨le_refl _, fun b' hb' => ?_⟩
        injection hb' with hb'
        exact hb' ▸ le_of_lt hab
      · rw [if_neg hab] at hc
        injection hc with hc
        subst hc
        refine ⟨not_lt.1 hab, fun b' hb' => ?_⟩
        injection hb' with hb'
        exact hb' ▸ le_refl _

/-- The better of two candidates exists: on the rationals every quotient
may win. -/
private theorem better_isSome (best : Option (κ × Rat)) (a : κ × Rat) :
    ∃ c, better best a = some c := by
  cases best with
  | none => exact ⟨a, rfl⟩
  | some b =>
      by_cases hab : a.2 < b.2
      · exact ⟨a, if_pos hab⟩
      · exact ⟨b, if_neg hab⟩

private theorem foldl_better_le {l : List (κ × Rat)} :
    ∀ {best : Option (κ × Rat)} {c : κ × Rat},
      l.foldl better best = some c →
      (∀ b, best = some b → c.2 ≤ b.2) ∧ ∀ a ∈ l, c.2 ≤ a.2 := by
  induction l with
  | nil =>
      intro best c h
      refine ⟨fun b hb => ?_, fun a ha => by cases ha⟩
      have hbc : b = c := Option.some.inj (hb.symm.trans h)
      exact hbc ▸ le_refl _
  | cons a l ih =>
      intro best c h
      obtain ⟨d, hd⟩ := better_isSome best a
      rw [List.foldl_cons, hd] at h
      obtain ⟨hcd, hl⟩ := ih h
      obtain ⟨hda, hbest⟩ := le_of_better hd
      have hc : c.2 ≤ d.2 := hcd d rfl
      refine ⟨fun b hb => le_trans hc (hbest b hb), fun x hx => ?_⟩
      rcases List.mem_cons.1 hx with rfl | hx
      · exact le_trans hc hda
      · exact hl x hx

/-- A winner is a candidate, and none has a smaller ratio. -/
theorem leastRatio_spec {l : List (κ × Rat)} {k : κ}
    (h : leastRatio l = some k) :
    ∃ r, (k, r) ∈ l ∧ ∀ c ∈ l, r ≤ c.2 := by
  obtain ⟨⟨k', r⟩, hc, rfl⟩ := Option.map_eq_some_iff.1 h
  refine ⟨r, ?_, (foldl_better_le hc).2⟩
  rcases foldl_better_mem hc with hn | hm
  · cases hn
  · exact hm

/-- A test without a winner had no candidate. -/
theorem leastRatio_eq_none {l : List (κ × Rat)}
    (h : leastRatio l = none) : l = [] :=
  (leastRatio_eq_none_iff fun _ _ => rfl).1 h

end LinearConstraints.Scalar
