import Mathlib.Algebra.BigOperators.Group.List.Basic
import Mathlib.Algebra.Order.BigOperators.Group.List
import Mathlib.Algebra.Ring.Nat
import Mathlib.Order.Interval.Finset.Nat

/-! # Tickets

A list of weights deals out as many tickets as they sum to, in consecutive
blocks: the first weight gets the first tickets, and so on. The holder of a
ticket is found by subtracting weights until it is below the next one.
-/

namespace Tickets

variable {ws : List ℕ} {t i : ℕ}

/-- The position of the weight whose block has the ticket. -/
def holder : List ℕ → ℕ → Option ℕ
  | [], _ => none
  | w :: ws, t => if t < w then some 0 else (holder ws (t - w)).map (· + 1)

theorem holder_eq_some :
    holder ws t = some i ↔ i < ws.length ∧ (ws.take i).sum ≤ t ∧ t < (ws.take (i + 1)).sum := by
  induction ws generalizing t i with
  | nil => simp [holder]
  | cons w ws ih =>
    unfold holder
    split_ifs with h
    · cases i with
      | zero => simp [h]
      | succ i =>
        simp only [Option.some.injEq, List.take_succ_cons, List.sum_cons]
        omega
    · cases i with
      | zero => simpa using h
      | succ i =>
        simp only [Option.map_eq_some_iff, Nat.add_right_cancel_iff, exists_eq_right, ih,
          List.length_cons, List.take_succ_cons, List.sum_cons]
        omega

theorem exists_holder (h : t < ws.sum) : ∃ i, holder ws t = some i := by
  induction ws generalizing t with
  | nil => simp at h
  | cons w ws ih =>
    unfold holder
    split_ifs with hw
    · exact ⟨0, rfl⟩
    · rw [List.sum_cons] at h
      obtain ⟨i, hi⟩ := ih (t := t - w) (by omega)
      exact ⟨i + 1, by rw [hi]; rfl⟩

/-- Every position holds as many tickets as it has weight. -/
theorem card_holder (h : i < ws.length) :
    ((Finset.range ws.sum).filter fun t => holder ws t = some i).card = ws[i] := by
  have hsum : (ws.take (i + 1)).sum = (ws.take i).sum + ws[i] := List.sum_take_succ ws i h
  have hle : (ws.take (i + 1)).sum ≤ ws.sum := by
    conv_rhs => rw [← List.take_append_drop (i + 1) ws, List.sum_append]
    exact Nat.le_add_right _ _
  have hblock : ((Finset.range ws.sum).filter fun t => holder ws t = some i) =
      Finset.Ico (ws.take i).sum (ws.take (i + 1)).sum := by
    ext t
    rw [Finset.mem_filter, Finset.mem_range, Finset.mem_Ico, holder_eq_some]
    omega
  rw [hblock, Nat.card_Ico, hsum]
  omega

end Tickets
