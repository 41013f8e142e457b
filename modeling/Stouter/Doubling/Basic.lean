import Mathlib.Combinatorics.SimpleGraph.Metric

/-! # Acquaintances that double

Parties that know some of each other meet all they know, and tell each other whom
they know. Each round of meetings doubles the distance over which everybody knows
everybody.
-/

namespace Doubling

variable {ι : Type*}

/-- From `K` to `K'` everybody has met those it can contact, and both have told the other whom they
knew. -/
def Meets (C K K' : ι → ι → Prop) : Prop :=
  ∀ i j, C i j → (∀ k, K i k → K' j k) ∧ ∀ k, K j k → K' i k

/-- Rounds in which everybody meets all it knows. -/
inductive Rounds (K : ι → ι → Prop) : ℕ → (ι → ι → Prop) → Prop
  | start : Rounds K 0 K
  | round {n : ℕ} {K' K'' : ι → ι → Prop} (h : Rounds K n K') (hm : Meets K' K' K'') :
      Rounds K (n + 1) K''

variable {C K K' : ι → ι → Prop} {i j : ι} {n : ℕ}

/-- Those that meet know each other, if everybody knows itself. -/
theorem Meets.symm (h : Meets C K K') (hrefl : ∀ i, K i i) (hc : C i j) : K' i j ∧ K' j i :=
  ⟨(h i j hc).2 j (hrefl j), (h i j hc).1 i (hrefl i)⟩

/-- After `n` rounds everybody knows everybody up to the distance `2 ^ n`. -/
theorem Rounds.knows {G : SimpleGraph ι} (h : Rounds K n K') (hrefl : ∀ i, K i i)
    (hadj : ∀ i j, G.Adj i j → K i j) (w : G.Walk i j) (hw : w.length ≤ 2 ^ n) : K' i j := by
  induction h generalizing i j with
  | start =>
    cases w with
    | nil => exact hrefl _
    | cons hij w =>
      rw [SimpleGraph.Walk.length_cons] at hw
      have hnil : w.length = 0 := by omega
      obtain rfl := SimpleGraph.Walk.eq_of_length_eq_zero hnil
      exact hadj _ _ hij
  | @round n K' K'' h hm ih =>
    -- The one halfway is known, and tells whom it knows.
    have hnear : K' i (w.getVert (2 ^ n)) := by
      refine ih (w.take (2 ^ n)) ?_
      rw [SimpleGraph.Walk.take_length]
      exact min_le_left _ _
    have hfar : K' (w.getVert (2 ^ n)) j := by
      refine ih (w.drop (2 ^ n)) ?_
      rw [SimpleGraph.Walk.drop_length]
      rw [pow_succ] at hw
      omega
    exact (hm i _ hnear).2 j hfar

end Doubling
