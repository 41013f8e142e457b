import Mathlib.Algebra.Order.Field.Basic
import Mathlib.Tactic.Linarith
import Mathlib.Tactic.Ring

/-! # Budgets

A balance is raised by a fixed amount with every deposit, up to a cap, and a
withdrawal of one unit is granted if the balance has one. A history of calls
with their answers can be replayed from a balance. What is granted in any
stretch of a history is at most the cap and what was deposited in it.
-/

namespace Budget

/-- A call, with the answer to a withdrawal. -/
inductive Call
  | deposit
  | withdraw (granted : Bool)
  deriving DecidableEq, Repr

def deposits (calls : List Call) : ℕ := calls.count .deposit

def granted (calls : List Call) : ℕ := calls.count (.withdraw true)

variable {K : Type*} [Field K] [LinearOrder K] {ratio cap t u : K}
  {calls calls' : List Call}

/-- The balance after a call, if the balance gives the recorded answer. -/
def after (ratio cap t : K) : Call → Option K
  | .deposit => some (min (t + ratio) cap)
  | .withdraw true => if 1 ≤ t then some (t - 1) else none
  | .withdraw false => if 1 ≤ t then none else some t

def replay (ratio cap : K) : K → List Call → Option K
  | t, [] => some t
  | t, call :: calls => (after ratio cap t call).bind fun t => replay ratio cap t calls

theorem replay_append (t : K) :
    replay ratio cap t (calls ++ calls') =
      (replay ratio cap t calls).bind fun t => replay ratio cap t calls' := by
  induction calls generalizing t with
  | nil => rfl
  | cons call calls ih =>
    simp only [List.cons_append, replay]
    cases after ratio cap t call with
    | none => rfl
    | some t => exact ih t

theorem replay_concat {call : Call} (h : replay ratio cap t calls = some u) :
    replay ratio cap t (calls ++ [call]) = after ratio cap u call := by
  rw [replay_append, h, Option.bind_some, replay]
  cases after ratio cap u call <;> rfl

theorem after_spent {call : Call} (h : after ratio cap t call = some u) :
    (granted [call] : K) + u ≤ t + ratio * deposits [call] := by
  match call with
  | .deposit =>
    obtain rfl := Option.some.inj h
    simp [granted, deposits]
  | .withdraw true =>
    obtain ⟨-, h⟩ := Option.ite_none_right_eq_some.mp h
    obtain rfl := Option.some.inj h
    simp [granted, deposits]
  | .withdraw false =>
    obtain ⟨-, h⟩ := Option.ite_none_left_eq_some.mp h
    obtain rfl := Option.some.inj h
    simp [granted, deposits]

variable [IsStrictOrderedRing K]

theorem after_bounds {call : Call} (hr : 0 ≤ ratio) (ht : 0 ≤ t ∧ t ≤ cap)
    (h : after ratio cap t call = some u) : 0 ≤ u ∧ u ≤ cap := by
  obtain ⟨h0, hcap⟩ := ht
  match call with
  | .deposit =>
    obtain rfl := Option.some.inj h
    exact ⟨le_min (by linarith) (h0.trans hcap), min_le_right _ _⟩
  | .withdraw true =>
    obtain ⟨hone, h⟩ := Option.ite_none_right_eq_some.mp h
    obtain rfl := Option.some.inj h
    exact ⟨by linarith, by linarith⟩
  | .withdraw false =>
    obtain ⟨-, h⟩ := Option.ite_none_left_eq_some.mp h
    obtain rfl := Option.some.inj h
    exact ⟨h0, hcap⟩

theorem replay_bounds (hr : 0 ≤ ratio) (ht : 0 ≤ t ∧ t ≤ cap)
    (h : replay ratio cap t calls = some u) : 0 ≤ u ∧ u ≤ cap := by
  induction calls generalizing t with
  | nil =>
    obtain rfl := Option.some.inj h
    exact ht
  | cons call calls ih =>
    obtain ⟨v, hv, hrest⟩ := Option.bind_eq_some_iff.mp h
    exact ih (after_bounds hr ht hv) hrest

theorem replay_spent (h : replay ratio cap t calls = some u) :
    (granted calls : K) + u ≤ t + ratio * deposits calls := by
  induction calls generalizing t with
  | nil =>
    obtain rfl := Option.some.inj h
    simp [granted, deposits]
  | cons call calls ih =>
    obtain ⟨v, hv, hrest⟩ := Option.bind_eq_some_iff.mp h
    have hstep := after_spent hv
    have hsum := ih hrest
    have hg : granted (call :: calls) = granted [call] + granted calls := by
      rw [granted, granted, granted, ← List.singleton_append, List.count_append]
    have hd : deposits (call :: calls) = deposits [call] + deposits calls := by
      rw [deposits, deposits, deposits, ← List.singleton_append, List.count_append]
    rw [hg, hd, Nat.cast_add, Nat.cast_add, mul_add]
    linarith

/-- In any stretch of a history, at most the cap and its deposits are granted. -/
theorem granted_window {before window rest : List Call} (hr : 0 ≤ ratio) (ht : 0 ≤ t ∧ t ≤ cap)
    (h : replay ratio cap t (before ++ window ++ rest) = some u) :
    (granted window : K) ≤ cap + ratio * deposits window := by
  rw [replay_append, replay_append] at h
  obtain ⟨w, hw, -⟩ := Option.bind_eq_some_iff.mp h
  obtain ⟨v, hv, hw⟩ := Option.bind_eq_some_iff.mp hw
  have hfrom := replay_bounds hr ht hv
  have hto := replay_bounds hr hfrom hw
  have hspent := replay_spent hw
  linarith [hfrom.2, hto.1]

end Budget
