import Mathlib.Algebra.Order.BigOperators.Group.Finset
import Mathlib.Algebra.BigOperators.Ring.Finset
import Mathlib.Algebra.Order.Ring.Int
import Mathlib.Tactic.Linarith
import Mathlib.Tactic.Ring

/-! # Smooth weighted rotation

In one turn every member of a set gains its weight, and a member whose value is
then highest pays the sum of the weights. With the same members and weights in
every turn, the values stay above minus the sum and come back to zero, so the
turns are shared in proportion to the weights. With members and weights that
change from turn to turn, the values of any `k` keys together stay below a
bound that is concave in `k`: a member can only pass the others by so much
before it is the one that pays.
-/

open Finset

namespace Rotation

variable {ι : Type*} [DecidableEq ι] {S K L A : Finset ι} {w x y z : ι → ℤ} {c i : ι}

/-- One turn from the values `x` to `y`, paid by `c`. -/
structure Turn (S : Finset ι) (w x : ι → ℤ) (c : ι) (y : ι → ℤ) : Prop where
  mem : c ∈ S
  best : ∀ i ∈ S, x i + w i ≤ x c + w c
  eq : ∀ i, y i = x i + (if i ∈ S then w i else 0) - if i = c then ∑ j ∈ S, w j else 0

theorem Turn.sum_eq (h : Turn S w x c y) (A : Finset ι) :
    ∑ i ∈ A, y i = ∑ i ∈ A, x i + ∑ i ∈ A ∩ S, w i - if c ∈ A then ∑ j ∈ S, w j else 0 := by
  simp only [h.eq, sum_sub_distrib, sum_add_distrib, sum_ite_mem, sum_ite_eq']

theorem Turn.congr (h : Turn S w x c y) (hS : S ⊆ A) (hx : ∀ i ∈ A, z i = x i) :
    ∃ y', Turn S w z c y' ∧ ∀ i ∈ A, y' i = y i := by
  refine ⟨fun i => z i + (if i ∈ S then w i else 0) - if i = c then ∑ j ∈ S, w j else 0, ?_, ?_⟩
  · refine ⟨h.mem, ?_, fun _ => rfl⟩
    intro i hi
    rw [hx i (hS hi), hx c (hS h.mem)]
    exact h.best i hi
  · intro i hi
    rw [h.eq, ← hx i hi]

/-! ## A fixed rotation -/

/-- Turns of one rotation, with who paid, in order. -/
inductive Turns (S : Finset ι) (w x : ι → ℤ) : List ι → (ι → ℤ) → Prop
  | nil : Turns S w x [] x
  | concat {l : List ι} {y : ι → ℤ} {c : ι} {z : ι → ℤ} :
      Turns S w x l y → Turn S w y c z → Turns S w x (l ++ [c]) z

variable {l : List ι}

theorem Turns.mem (h : Turns S w x l y) (hi : i ∈ l) : i ∈ S := by
  induction h with
  | nil => simp at hi
  | concat _ ht ih =>
    rcases List.mem_append.mp hi with hi | hi
    · exact ih hi
    · rw [List.mem_singleton.mp hi]
      exact ht.mem

/-- A value is what the member gained less what it paid. -/
theorem Turns.value (h : Turns S w x l y) (hi : i ∈ S) :
    y i = x i + l.length * w i - l.count i * ∑ j ∈ S, w j := by
  induction h with
  | nil => simp
  | @concat l y c z _ ht ih =>
    rw [ht.eq, ih, if_pos hi, List.count_append, List.count_singleton]
    simp only [beq_iff_eq, eq_comm (a := c)]
    split_ifs
    · push_cast [List.length_append, List.length_singleton]
      ring
    · push_cast [List.length_append, List.length_singleton]
      ring

theorem Turns.outside (h : Turns S w x l y) (hi : i ∉ S) : y i = x i := by
  induction h with
  | nil => rfl
  | @concat l y c z _ ht ih =>
    have hne : i ≠ c := fun he => hi (he ▸ ht.mem)
    rw [ht.eq, ih, if_neg hi, if_neg hne]
    ring

theorem Turns.sum_zero (h : Turns S w x l y) (h0 : ∀ i ∈ S, x i = 0) : ∑ i ∈ S, y i = 0 := by
  induction h with
  | nil => exact sum_eq_zero h0
  | concat _ ht ih => rw [ht.sum_eq, ih, inter_self, if_pos ht.mem, zero_add, sub_self]

/-- Whoever pays had a positive value, so no value falls to minus the sum of the weights. -/
theorem Turns.gt (h : Turns S w x l y) (h0 : ∀ i ∈ S, x i = 0) (hw : ∀ i ∈ S, 0 < w i)
    (hi : i ∈ S) : -∑ j ∈ S, w j < y i := by
  induction h generalizing i with
  | nil =>
    rw [h0 i hi]
    linarith [sum_pos hw ⟨i, hi⟩]
  | @concat l y c z hl ht ih =>
    rw [ht.eq, if_pos hi]
    split_ifs with hc
    · subst hc
      -- The values after the gains add up to the sum of the weights, so the highest is positive.
      have hsum : ∑ j ∈ S, (y j + w j) = ∑ j ∈ S, w j := by
        rw [sum_add_distrib, hl.sum_zero h0, zero_add]
      by_contra hle
      have hneg : ∀ j ∈ S, y j + w j ≤ 0 := fun j hj => (ht.best j hj).trans (by linarith)
      linarith [sum_nonpos hneg, sum_pos hw ⟨i, hi⟩]
    · linarith [ih hi, hw i hi]

/-- No member is a full turn ahead of its share. -/
theorem Turns.count_lt (h : Turns S w x l y) (h0 : ∀ i ∈ S, x i = 0) (hw : ∀ i ∈ S, 0 < w i)
    (hi : i ∈ S) : l.count i * ∑ j ∈ S, w j < l.length * w i + ∑ j ∈ S, w j := by
  have hv := h.value hi
  rw [h0 i hi] at hv
  linarith [h.gt h0 hw hi]

/-- After whole rounds every value is back at zero and every member has had its share. -/
theorem Turns.round (h : Turns S w x l y) (h0 : ∀ i ∈ S, x i = 0) (hw : ∀ i ∈ S, 0 < w i)
    {k : ℤ} (hk : l.length = k * ∑ j ∈ S, w j) (hi : i ∈ S) :
    l.count i = k * w i ∧ y i = 0 := by
  have hpos : 0 < ∑ j ∈ S, w j := sum_pos hw ⟨i, hi⟩
  -- Each value is a multiple of the sum above its negative, so none is negative.
  have hnonneg : ∀ j ∈ S, 0 ≤ y j := by
    intro j hj
    have hv : y j = (k * w j - l.count j) * ∑ j ∈ S, w j := by
      rw [h.value hj, h0 j hj, hk]
      ring
    have hgt := h.gt h0 hw hj
    rw [hv] at hgt ⊢
    have hone : -1 < k * w j - l.count j := by
      by_contra hle
      nlinarith
    exact mul_nonneg (by omega) hpos.le
  have hzero : y i = 0 := (sum_eq_zero_iff_of_nonneg hnonneg).mp (h.sum_zero h0) i hi
  refine ⟨?_, hzero⟩
  have hv := h.value hi
  rw [hzero, h0 i hi, hk] at hv
  have hfactor : (l.count i - k * w i) * ∑ j ∈ S, w j = 0 := by linarith
  rcases mul_eq_zero.mp hfactor with he | he
  · linarith
  · exact absurd he hpos.ne'

/-! ## A changing rotation -/

/-- Any of the keys together have at most `f` of their number, and at least minus `g` of it. -/
structure Within (f g : ℕ → ℤ) (K : Finset ι) (x : ι → ℤ) : Prop where
  le : ∀ A ⊆ K, ∑ i ∈ A, x i ≤ f #A
  ge : ∀ A ⊆ K, -g #A ≤ ∑ i ∈ A, x i

variable {f g : ℕ → ℤ} {n : ℕ} {v : ℤ}

omit [DecidableEq ι] in
theorem Within.mono (h : Within f g K x) (hK : L ⊆ K) : Within f g L x :=
  ⟨fun A hA => h.le A (hA.trans hK), fun A hA => h.ge A (hA.trans hK)⟩

omit [DecidableEq ι] in
theorem Within.congr (h : Within f g K x) (hx : ∀ i ∈ K, y i = x i) : Within f g K y := by
  have hsum : ∀ A ⊆ K, ∑ i ∈ A, y i = ∑ i ∈ A, x i :=
    fun A hA => sum_congr rfl fun i hi => hx i (hA hi)
  constructor
  · intro A hA
    rw [hsum A hA]
    exact h.le A hA
  · intro A hA
    rw [hsum A hA]
    exact h.ge A hA

theorem Within.extend (h : Within f g K x) (hx : ∀ i ∈ L \ K, x i = 0)
    (hf : ∀ i j, i ≤ j → j ≤ #L → f i ≤ f j) (hg : ∀ i j, i ≤ j → j ≤ #L → g i ≤ g j) :
    Within f g L x := by
  have hsum : ∀ A ⊆ L, ∑ i ∈ A, x i = ∑ i ∈ A ∩ K, x i := by
    intro A hA
    refine (sum_subset inter_subset_left fun i hi hn => hx i ?_).symm
    exact mem_sdiff.mpr ⟨hA hi, fun hK => hn (mem_inter.mpr ⟨hi, hK⟩)⟩
  constructor
  · intro A hA
    rw [hsum A hA]
    exact (h.le _ inter_subset_right).trans
      (hf _ _ (card_le_card inter_subset_left) (card_le_card hA))
  · intro A hA
    rw [hsum A hA]
    have hle := hg #(A ∩ K) #A (card_le_card inter_subset_left) (card_le_card hA)
    linarith [h.ge (A ∩ K) inter_subset_right]

section Turn

variable (ht : Turn S w x c y) (hS : S ⊆ K) (hn : #K ≤ n) (hw : ∀ i ∈ S, 0 ≤ w i ∧ w i ≤ v)

include ht hS hn hw

theorem Turn.sum_le (h : Within f g K x)
    (hf : ∀ k, k + 2 ≤ n → f (k + 2) + f k + (2 * k + 3) * v ≤ 2 * f (k + 1)) (hA : A ⊆ K) :
    ∑ i ∈ A, y i ≤ f #A := by
  have hgain : ∑ i ∈ A ∩ S, w i ≤ ∑ i ∈ S, w i :=
    sum_le_sum_of_subset_of_nonneg inter_subset_right fun i hi _ => (hw i hi).1
  rw [ht.sum_eq]
  split_ifs with hc
  · linarith [h.le A hA]
  rcases (A ∩ S).eq_empty_or_nonempty with he | ⟨j, hj⟩
  · rw [he]
    simpa using h.le A hA
  obtain ⟨hjA, hjS⟩ := mem_inter.mp hj
  obtain ⟨k, hk⟩ : ∃ k, #A = k + 1 := Nat.exists_eq_succ_of_ne_zero (card_ne_zero_of_mem hjA)
  have hinsert : insert c A ⊆ K := insert_subset (hS ht.mem) hA
  have hcard : #(insert c A) = k + 2 := by rw [card_insert_of_notMem hc, hk]
  have hup := h.le _ hinsert
  have hdown := h.le _ ((erase_subset j A).trans hA)
  rw [hcard, sum_insert hc] at hup
  rw [card_erase_of_mem hjA, hk, Nat.add_sub_cancel] at hdown
  have hsum := add_sum_erase A x hjA
  have hgap := hf k (hcard ▸ (card_le_card hinsert).trans hn)
  have hbest := ht.best j hjS
  have hmany : ∑ i ∈ A ∩ S, w i ≤ (k + 1) * v := by
    have hv : 0 ≤ v := (hw j hjS).1.trans (hw j hjS).2
    have hle := sum_le_card_nsmul (A ∩ S) w v fun i hi => (hw i (mem_inter.mp hi).2).2
    have hfew : (#(A ∩ S) : ℤ) ≤ k + 1 := by
      have := card_le_card (inter_subset_left : A ∩ S ⊆ A)
      omega
    rw [nsmul_eq_mul] at hle
    exact hle.trans (mul_le_mul_of_nonneg_right hfew hv)
  rw [hk]
  linarith [(hw j hjS).1, (hw c ht.mem).2]

theorem Turn.le_sum (h : Within f g K x)
    (hg : ∀ k, k + 2 ≤ n → g (k + 2) + g k + (2 * (n - (k + 1)) + 1) * v ≤ 2 * g (k + 1))
    (hA : A ⊆ K) : -g #A ≤ ∑ i ∈ A, y i := by
  have hgain : 0 ≤ ∑ i ∈ A ∩ S, w i := sum_nonneg fun i hi => (hw i (mem_inter.mp hi).2).1
  rw [ht.sum_eq]
  split_ifs with hc
  · have hrest : ∑ i ∈ S, w i = ∑ i ∈ A ∩ S, w i + ∑ i ∈ S \ A, w i := by
      rw [inter_comm, ← sum_sdiff (inter_subset_left : S ∩ A ⊆ S), sdiff_inter_self_left, add_comm]
    rcases (S \ A).eq_empty_or_nonempty with he | ⟨j, hj⟩
    · rw [hrest, he]
      simpa using h.ge A hA
    obtain ⟨hjS, hjA⟩ := mem_sdiff.mp hj
    obtain ⟨k, hk⟩ : ∃ k, #A = k + 1 := Nat.exists_eq_succ_of_ne_zero (card_ne_zero_of_mem hc)
    have hinsert : insert j A ⊆ K := insert_subset (hS hjS) hA
    have hcard : #(insert j A) = k + 2 := by rw [card_insert_of_notMem hjA, hk]
    have hlen : k + 2 ≤ n := hcard ▸ (card_le_card hinsert).trans hn
    have hup := h.ge _ hinsert
    have hdown := h.ge _ ((erase_subset c A).trans hA)
    rw [hcard, sum_insert hjA] at hup
    rw [card_erase_of_mem hc, hk, Nat.add_sub_cancel] at hdown
    have hsum := add_sum_erase A x hc
    have hgap := hg k hlen
    have hbest := ht.best j hjS
    have hmany : ∑ i ∈ S \ A, w i ≤ (n - (k + 1)) * v := by
      have hv : 0 ≤ v := (hw j hjS).1.trans (hw j hjS).2
      have hle := sum_le_card_nsmul (S \ A) w v fun i hi => (hw i (mem_sdiff.mp hi).1).2
      have hfew : (#(S \ A) : ℤ) ≤ n - (k + 1) := by
        have hdisj : #(S \ A) + #A ≤ #K := by
          rw [← card_union_of_disjoint sdiff_disjoint]
          exact card_le_card (union_subset (sdiff_subset.trans hS) hA)
        omega
      rw [nsmul_eq_mul] at hle
      exact hle.trans (mul_le_mul_of_nonneg_right hfew hv)
    rw [hk]
    linarith [(hw j hjS).1, (hw c ht.mem).2]
  · linarith [h.ge A hA]

end Turn

/-- What `k` of at most `n` keys can have together, with weights up to `v`. -/
def cap (n : ℕ) (v : ℤ) (k : ℕ) : ℤ := ∑ l ∈ range k, ((n : ℤ) ^ 2 - (l + 1) ^ 2) * v

/-- What `k` of at most `n` keys can owe together, with weights up to `v`. -/
def debt (n : ℕ) (v : ℤ) (k : ℕ) : ℤ := ∑ l ∈ range k, (((n : ℤ) - l) ^ 2 - 1) * v

theorem cap_mono (hv : 0 ≤ v) {i j : ℕ} (hij : i ≤ j) (hj : j ≤ n) : cap n v i ≤ cap n v j := by
  apply sum_le_sum_of_subset_of_nonneg (range_mono hij)
  intro l hl _
  have hl : ((l + 1 : ℕ) : ℤ) ≤ n := by exact_mod_cast (mem_range.mp hl).trans_le hj
  push_cast at hl
  exact mul_nonneg (by nlinarith) hv

theorem debt_mono (hv : 0 ≤ v) {i j : ℕ} (hij : i ≤ j) (hj : j ≤ n) :
    debt n v i ≤ debt n v j := by
  apply sum_le_sum_of_subset_of_nonneg (range_mono hij)
  intro l hl _
  have hl : ((l + 1 : ℕ) : ℤ) ≤ n := by exact_mod_cast (mem_range.mp hl).trans_le hj
  push_cast at hl
  exact mul_nonneg (by nlinarith) hv

theorem cap_concave (n : ℕ) (v : ℤ) (k : ℕ) :
    cap n v (k + 2) + cap n v k + (2 * k + 3) * v = 2 * cap n v (k + 1) := by
  simp only [cap, sum_range_succ]
  push_cast
  ring

theorem debt_concave (n : ℕ) (v : ℤ) (k : ℕ) :
    debt n v (k + 2) + debt n v k + (2 * (n - (k + 1)) + 1) * v = 2 * debt n v (k + 1) := by
  simp only [debt, sum_range_succ]
  push_cast
  ring

/-- The values of at most `n` keys after turns with weights up to `v`. -/
def Bounded (n : ℕ) (v : ℤ) : Finset ι → (ι → ℤ) → Prop := Within (cap n v) (debt n v)

omit [DecidableEq ι] in
theorem bounded_empty (n : ℕ) (v : ℤ) (x : ι → ℤ) : Bounded n v ∅ x := by
  constructor <;> intro A hA <;> rw [subset_empty.mp hA] <;> simp [cap, debt]

theorem Bounded.extend (h : Bounded n v K x) (hv : 0 ≤ v) (hn : #L ≤ n)
    (hx : ∀ i ∈ L \ K, x i = 0) : Bounded n v L x :=
  Within.extend h hx (fun _ _ hij hj => cap_mono hv hij (hj.trans hn))
    fun _ _ hij hj => debt_mono hv hij (hj.trans hn)

theorem Bounded.turn (h : Bounded n v K x) (ht : Turn S w x c y) (hS : S ⊆ K) (hn : #K ≤ n)
    (hw : ∀ i ∈ S, 0 ≤ w i ∧ w i ≤ v) : Bounded n v K y :=
  ⟨fun _ hA => ht.sum_le hS hn hw h (fun k _ => (cap_concave n v k).le) hA,
    fun _ hA => ht.le_sum hS hn hw h (fun k _ => (debt_concave n v k).le) hA⟩

omit [DecidableEq ι] in
/-- A single value stays within the square of the number of keys times the weight. -/
theorem Bounded.value (h : Bounded n v K x) (hi : i ∈ K) :
    -(n ^ 2 - 1) * v ≤ x i ∧ x i ≤ (n ^ 2 - 1) * v := by
  have hle := h.le {i} (singleton_subset_iff.mpr hi)
  have hge := h.ge {i} (singleton_subset_iff.mpr hi)
  simp only [sum_singleton, card_singleton, cap, debt, range_one, Nat.cast_zero, zero_add, sub_zero,
    one_pow] at hle hge
  constructor
  · linarith
  · exact hle

end Rotation
