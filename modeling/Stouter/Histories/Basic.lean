import Mathlib.Data.List.Infix

/-! # Linear histories of operations

A log of applied operations is a chain when each was applied to the state the
ones before it led to. The states such a log passes through are ordered by a
rank that every operation raises by one, so a state of top rank is the last
one. What an operation wrote is still there at the end, unless a later one
changed it.
-/

/-- An operation with the states before and after it. -/
structure Applied (σ α : Type*) where
  op : α
  before : σ
  after : σ
  deriving DecidableEq

namespace Applied

variable {σ α ι β : Type*} {R : σ → α → σ → Prop} {start x y : σ}
  {log pre more : List (Applied σ α)} {r : Applied σ α}

/-- The state a log leads to. -/
def current (start : σ) (log : List (Applied σ α)) : σ := (log.getLast?.map (·.after)).getD start

@[simp] theorem current_nil : current start ([] : List (Applied σ α)) = start := rfl

@[simp] theorem current_concat : current start (log ++ [r]) = r.after := by
  simp [current]

/-- Each operation was applied to the state the ones before it led to. -/
inductive Chain (R : σ → α → σ → Prop) (start : σ) : List (Applied σ α) → Prop
  | nil : Chain R start []
  | concat {log : List (Applied σ α)} {r : Applied σ α} : Chain R start log →
      r.before = current start log → R r.before r.op r.after → Chain R start (log ++ [r])

theorem Chain.of_prefix (h : Chain R start log) (hp : pre <+: log) : Chain R start pre := by
  induction h with
  | nil => rw [List.prefix_nil.mp hp]; exact .nil
  | concat hc hb hR ih =>
    rcases List.prefix_concat_iff.mp hp with rfl | hp
    · exact .concat hc hb hR
    · exact ih hp

theorem Chain.of_mem (h : Chain R start log) (hr : r ∈ log) : R r.before r.op r.after := by
  induction h with
  | nil => simp at hr
  | concat hc hb hR ih =>
    rcases List.mem_append.mp hr with hr | hr
    · exact ih hr
    · rw [List.mem_singleton.mp hr]
      exact hR

/-- The states a log passes through. -/
def Visits (start : σ) (log : List (Applied σ α)) (x : σ) : Prop :=
  ∃ pre, pre <+: log ∧ x = current start pre

theorem visits_current : Visits start log (current start log) := ⟨log, List.prefix_refl _, rfl⟩

theorem Visits.mono (h : Visits start log x) (hp : log <+: more) : Visits start more x := by
  obtain ⟨pre, hpre, hx⟩ := h
  exact ⟨pre, hpre.trans hp, hx⟩

section Rank

variable {rank : σ → ℕ} (hrank : ∀ s a t, R s a t → rank t = rank s + 1)

include hrank

theorem Chain.rank_current (h : Chain R start log) :
    rank (current start log) = rank start + log.length := by
  induction h with
  | nil => simp
  | concat _ hb hR ih =>
    rw [current_concat, hrank _ _ _ hR, hb, ih, List.length_append, List.length_singleton]
    omega

theorem Chain.rank_le (h : Chain R start log) (hx : Visits start log x) :
    rank x ≤ rank (current start log) := by
  obtain ⟨pre, hp, rfl⟩ := hx
  have hlen := hp.length_le
  rw [h.rank_current hrank, (h.of_prefix hp).rank_current hrank]
  omega

theorem Chain.eq_of_rank_eq (h : Chain R start log) (hx : Visits start log x)
    (hy : Visits start log y) (he : rank x = rank y) : x = y := by
  obtain ⟨p, hp, rfl⟩ := hx
  obtain ⟨q, hq, rfl⟩ := hy
  rw [(h.of_prefix hp).rank_current hrank, (h.of_prefix hq).rank_current hrank] at he
  have hpq : p = q := by
    rw [List.prefix_iff_eq_take.mp hp, List.prefix_iff_eq_take.mp hq]
    congr 1
    omega
  rw [hpq]

theorem Chain.eq_current (h : Chain R start log) (hx : Visits start log x)
    (hle : rank (current start log) ≤ rank x) : x = current start log :=
  h.eq_of_rank_eq hrank hx visits_current (le_antisymm (h.rank_le hrank hx) hle)

end Rank

/-- At every place the operation writes to, the state holds what it wrote. -/
def HoldsIn (view : σ → ι → β) (writes : α → List ι) (r : Applied σ α) (x : σ) : Prop :=
  ∀ i ∈ writes r.op, view x i = view r.after i

instance {view : σ → ι → β} {writes : α → List ι} [DecidableEq β] (r : Applied σ α) (x : σ) :
    Decidable (r.HoldsIn view writes x) :=
  inferInstanceAs (Decidable (∀ i ∈ writes r.op, view x i = view r.after i))

/-- What an operation of the log wrote is there at the end, or a later operation applied to a
state that held it changed it. -/
theorem Chain.holdsIn_or_changed (view : σ → ι → β) (writes : α → List ι) (h : Chain R start log)
    (hr : r ∈ log) :
    r.HoldsIn view writes (current start log) ∨
      ∃ r', List.Sublist [r, r'] log ∧ R r'.before r'.op r'.after ∧
        r.HoldsIn view writes r'.before ∧
        ∃ i ∈ writes r.op, view r'.after i ≠ view r'.before i := by
  induction h with
  | nil => simp at hr
  | @concat log last hc hb hR ih =>
    rw [current_concat]
    rcases List.mem_append.mp hr with hr | hr
    · rcases ih hr with hold | ⟨r', hr', hrest⟩
      · by_cases hsame : ∀ i ∈ writes r.op, view last.after i = view last.before i
        · left
          intro i hi
          rw [hsame i hi, hb, hold i hi]
        · right
          push Not at hsame
          have hlater : List.Sublist ([r] ++ [last]) (log ++ [last]) :=
            (List.singleton_sublist.mpr hr).append (List.Sublist.refl _)
          exact ⟨last, hlater, hR, hb ▸ hold, hsame⟩
      · exact .inr ⟨r', hr'.trans (List.sublist_append_left _ _), hrest⟩
    · left
      rw [List.mem_singleton.mp hr]
      intro i _
      rfl

end Applied
