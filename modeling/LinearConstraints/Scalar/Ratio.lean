/-
Ratio tests: the first of the candidates whose ratio is least.

Main statements: the winner of a ratio test is one of the candidates, and
a test whose candidates all have numbers that may win ends without a
winner only if there is no candidate.
-/
import LinearConstraints.Scalar.Basic

namespace LinearConstraints.Scalar

variable {α κ : Type} [Scalar α]

/-- The better of the best candidate so far and the next one. The first to
be taken must be a ratio that may win; after that only a strictly smaller
one takes its place. -/
def better (best : Option (κ × α)) (next : κ × α) : Option (κ × α) :=
  match best with
  | none => if isRatio next.2 then some next else none
  | some b => if next.2 < b.2 then some next else some b

/-- The first candidate of least ratio. -/
def leastRatio (candidates : List (κ × α)) : Option κ :=
  (candidates.foldl better none).map Prod.fst

/-- The best of a scan is what it began with or one of those scanned. -/
theorem foldl_better_mem {l : List (κ × α)} :
    ∀ {best : Option (κ × α)} {c : κ × α},
      l.foldl better best = some c → best = some c ∨ c ∈ l := by
  induction l with
  | nil => intro best c h; exact Or.inl h
  | cons a l ih =>
      intro best c h
      rcases ih h with hb | hm
      · cases best with
        | none =>
            simp only [better] at hb
            split at hb
            · injection hb with hb
              exact Or.inr (hb ▸ List.mem_cons_self ..)
            · cases hb
        | some b =>
            simp only [better] at hb
            split at hb
            · injection hb with hb
              exact Or.inr (hb ▸ List.mem_cons_self ..)
            · exact Or.inl hb
      · exact Or.inr (List.mem_cons_of_mem _ hm)

/-- A winner is the key of a candidate. -/
theorem mem_of_leastRatio {l : List (κ × α)} {k : κ}
    (h : leastRatio l = some k) : ∃ r, (k, r) ∈ l := by
  obtain ⟨⟨k', r⟩, hc, rfl⟩ := Option.map_eq_some_iff.1 h
  rcases foldl_better_mem hc with hn | hm
  · cases hn
  · exact ⟨r, hm⟩

private theorem foldl_better_isSome {l : List (κ × α)} :
    ∀ {best : Option (κ × α)}, best.isSome →
      (l.foldl better best).isSome := by
  induction l with
  | nil => intro best h; exact h
  | cons a l ih =>
      intro best h
      refine ih ?_
      cases best with
      | none => cases h
      | some b =>
          simp only [better]
          split <;> rfl

/-- Where every candidate's ratio may win, one of them does. -/
theorem leastRatio_eq_none_iff {l : List (κ × α)}
    (h : ∀ c ∈ l, isRatio c.2 = true) : leastRatio l = none ↔ l = [] := by
  constructor
  · intro hn
    cases l with
    | nil => rfl
    | cons a l =>
        have ha : better none a = some a := by
          simp [better, h a (List.mem_cons_self ..)]
        have hs : (l.foldl better (some a)).isSome :=
          foldl_better_isSome rfl
        rw [leastRatio, List.foldl_cons, ha, Option.map_eq_none_iff] at hn
        rw [hn] at hs
        cases hs
  · intro heq
    subst heq
    rfl

end LinearConstraints.Scalar
