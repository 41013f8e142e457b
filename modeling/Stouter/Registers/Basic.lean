import Mathlib.Order.Lattice

/-! # Last-writer-wins registers

A register takes over what it is offered if that is newer than what it holds.
`IsNewest` says what it then holds: its start value or something it was
offered, and nothing it was offered is newer. Where equally new values are the
same, this determines the value, so the order of the offers does not matter.
-/

namespace Register

variable {α β : Type*} [LinearOrder β] {rank : α → β} {start v w o : α} {offers more : List α}

/-- Keep what is held unless the offer is newer. -/
def keepNewer (rank : α → β) (held offer : α) : α := if rank offer ≤ rank held then held else offer

/-- The newest of the start value and the offers. -/
structure IsNewest (rank : α → β) (start : α) (offers : List α) (v : α) : Prop where
  mem : v = start ∨ v ∈ offers
  start_le : rank start ≤ rank v
  le : ∀ o ∈ offers, rank o ≤ rank v

theorem IsNewest.nil (rank : α → β) (start : α) : IsNewest rank start [] start :=
  ⟨.inl rfl, le_rfl, by simp⟩

theorem IsNewest.first (h : rank start ≤ rank o) : IsNewest rank start [o] o :=
  ⟨.inr List.mem_cons_self, h, by simp⟩

theorem rank_le_keepNewer (rank : α → β) (held offer : α) :
    rank held ≤ rank (keepNewer rank held offer) ∧
      rank offer ≤ rank (keepNewer rank held offer) := by
  unfold keepNewer
  split_ifs with h
  · exact ⟨le_rfl, h⟩
  · exact ⟨(not_le.mp h).le, le_rfl⟩

theorem IsNewest.concat (h : IsNewest rank start offers v) (o : α) :
    IsNewest rank start (offers ++ [o]) (keepNewer rank v o) := by
  obtain ⟨hv, ho⟩ := rank_le_keepNewer rank v o
  refine ⟨?_, h.start_le.trans hv, fun x hx => ?_⟩
  · unfold keepNewer
    split_ifs
    · exact h.mem.imp_right (List.mem_append_left _)
    · exact .inr (by simp)
  · rcases List.mem_append.mp hx with hx | hx
    · exact (h.le x hx).trans hv
    · rw [List.mem_singleton.mp hx]
      exact ho

/-- The same offers, in whatever order and number, leave the same value. -/
theorem IsNewest.unique (h : IsNewest rank start offers v) (h' : IsNewest rank start more w)
    (hsame : ∀ x, x ∈ more ↔ x ∈ offers)
    (hinj : ∀ x ∈ start :: offers, ∀ y ∈ start :: offers, rank x = rank y → x = y) : w = v := by
  have hv : v ∈ start :: offers := List.mem_cons.mpr h.mem
  have hw : w ∈ start :: offers := List.mem_cons.mpr (h'.mem.imp_right (hsame w).mp)
  have hle : rank w ≤ rank v := by
    rcases List.mem_cons.mp hw with rfl | hw
    · exact h.start_le
    · exact h.le w hw
  have hge : rank v ≤ rank w := by
    rcases List.mem_cons.mp hv with rfl | hv
    · exact h'.start_le
    · exact h'.le v ((hsame v).mpr hv)
  exact hinj w hw v hv (le_antisymm hle hge)

end Register
