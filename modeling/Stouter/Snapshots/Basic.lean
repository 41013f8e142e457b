import Stouter.Lists.Basic
import Stouter.Transition.Basic

/-! # Copies that replace a shared value

A value that readers load at any time and writers replace: a writer takes a
lock, copies the value, changes the copy, stores it and gives the lock back.
Whatever the order of the steps, the value is always the one that the stored
updates give one after the other, each with the result it would have had
alone, and no update is lost.
-/

namespace Snapshot

variable {σ β ρ : Type*}

/-- How far a writer has come with its update. -/
inductive Writer (σ β ρ : Type*)
  | waiting (op : β)
  | locked (op : β)
  | copied (op : β) (copy : σ)
  | stored (op : β) (result : ρ)
  | done (op : β) (result : ρ)

def Writer.holds : Writer σ β ρ → Bool
  | .waiting _ => false
  | .locked _ => true
  | .copied _ _ => true
  | .stored _ _ => true
  | .done _ _ => false

/-- The update that a writer has made, with its result. -/
def Writer.made? : Writer σ β ρ → Option (β × ρ)
  | .stored op result => some (op, result)
  | .done op result => some (op, result)
  | _ => none

/-- The value, the writers and the updates in the order in which they were stored. -/
structure Cell (σ β ρ : Type*) where
  value : σ
  writers : List (Writer σ β ρ)
  log : List (β × ρ)

inductive CellAct (β : Type*)
  | submit (op : β)
  | lock (i : ℕ)
  | copy (i : ℕ)
  | store (i : ℕ)
  | unlock (i : ℕ)
  deriving DecidableEq, Repr

namespace Cell

variable {update : β → σ → σ × ρ} {s t : Cell σ β ρ} {a : CellAct β} {init : σ}

def start (init : σ) : Cell σ β ρ := ⟨init, [], []⟩

def next (update : β → σ → σ × ρ) (s : Cell σ β ρ) : CellAct β → Option (Cell σ β ρ)
  | .submit op => some { s with writers := s.writers ++ [.waiting op] }
  | .lock i =>
    match s.writers[i]? with
    | some (.waiting op) =>
      if s.writers.any Writer.holds then none
      else some { s with writers := s.writers.set i (.locked op) }
    | _ => none
  | .copy i =>
    match s.writers[i]? with
    | some (.locked op) => some { s with writers := s.writers.set i (.copied op s.value) }
    | _ => none
  | .store i =>
    match s.writers[i]? with
    | some (.copied op copy) => some
      { value := (update op copy).1
        writers := s.writers.set i (.stored op (update op copy).2)
        log := s.log ++ [(op, (update op copy).2)] }
    | _ => none
  | .unlock i =>
    match s.writers[i]? with
    | some (.stored op result) => some { s with writers := s.writers.set i (.done op result) }
    | _ => none

def system (update : β → σ → σ × ρ) (init : σ) : Transition (Cell σ β ρ) (CellAct β) :=
  Transition.ofNext (· = start init) (next update)

end Cell

/-- The updates, made one after the other, have these results and lead to this value. -/
inductive Sequential (update : β → σ → σ × ρ) (init : σ) : List (β × ρ) → σ → Prop
  | nil : Sequential update init [] init
  | concat {log : List (β × ρ)} {v : σ} (h : Sequential update init log v) (op : β) :
      Sequential update init (log ++ [(op, (update op v).2)]) (update op v).1

namespace Cell

variable {update : β → σ → σ × ρ} {s t : Cell σ β ρ} {a : CellAct β} {init : σ}

/-- What a step does: a writer comes, or one writer among the others goes on. -/
inductive Goes (update : β → σ → σ × ρ) (s : Cell σ β ρ) : Cell σ β ρ → Prop
  | submit (op : β) : Goes update s { s with writers := s.writers ++ [.waiting op] }
  | lock {l₁ l₂ : List (Writer σ β ρ)} {op : β} (hl : s.writers = l₁ ++ .waiting op :: l₂)
      (hfree : ∀ w ∈ s.writers, w.holds = false) :
      Goes update s { s with writers := l₁ ++ .locked op :: l₂ }
  | copy {l₁ l₂ : List (Writer σ β ρ)} {op : β} (hl : s.writers = l₁ ++ .locked op :: l₂) :
      Goes update s { s with writers := l₁ ++ .copied op s.value :: l₂ }
  | store {l₁ l₂ : List (Writer σ β ρ)} {op : β} {copy : σ}
      (hl : s.writers = l₁ ++ .copied op copy :: l₂) :
      Goes update s
        { value := (update op copy).1
          writers := l₁ ++ .stored op (update op copy).2 :: l₂
          log := s.log ++ [(op, (update op copy).2)] }
  | unlock {l₁ l₂ : List (Writer σ β ρ)} {op : β} {result : ρ}
      (hl : s.writers = l₁ ++ .stored op result :: l₂) :
      Goes update s { s with writers := l₁ ++ .done op result :: l₂ }

theorem goes_of_next (h : next update s a = some t) : Goes update s t := by
  cases a with
  | submit op =>
    cases h
    exact .submit op
  | lock i =>
    simp only [next] at h
    split at h
    · next op hi =>
      split_ifs at h with hheld
      cases h
      obtain ⟨l₁, l₂, hl, hset, -⟩ := List.split_of_getElem? hi
      rw [hset]
      exact .lock hl (by simpa using hheld)
    · cases h
  | copy i =>
    simp only [next] at h
    split at h <;> cases h
    next op hi =>
      obtain ⟨l₁, l₂, hl, hset, -⟩ := List.split_of_getElem? hi
      rw [hset]
      exact .copy hl
  | store i =>
    simp only [next] at h
    split at h <;> cases h
    next op copy hi =>
      obtain ⟨l₁, l₂, hl, hset, -⟩ := List.split_of_getElem? hi
      rw [hset]
      exact .store hl
  | unlock i =>
    simp only [next] at h
    split at h <;> cases h
    next op result hi =>
      obtain ⟨l₁, l₂, hl, hset, -⟩ := List.split_of_getElem? hi
      rw [hset]
      exact .unlock hl

/-- One writer at most has the lock, and a copy is still equal to the value. -/
structure Sound (update : β → σ → σ × ρ) (init : σ) (s : Cell σ β ρ) : Prop where
  holders : s.writers.countP Writer.holds ≤ 1
  copies : ∀ op copy, .copied op copy ∈ s.writers → copy = s.value
  log : Sequential update init s.log s.value
  made : s.log.Perm (s.writers.filterMap Writer.made?)

section Others

variable {l₁ l₂ : List (Writer σ β ρ)} {w x y : Writer σ β ρ}

theorem mem_others (h : w ∈ l₁ ++ y :: l₂) : w = y ∨ w ∈ l₁ ++ x :: l₂ := by
  simp only [List.mem_append, List.mem_cons] at h ⊢
  tauto

theorem countP_others : (l₁ ++ x :: l₂).countP Writer.holds =
    l₁.countP Writer.holds + l₂.countP Writer.holds + x.holds.toNat := by
  rw [List.countP_append, List.countP_cons]
  cases x.holds
  · simp
  · simp only [if_true, Bool.toNat_true]
    omega

theorem made_others (h : x.made? = y.made?) :
    (l₁ ++ x :: l₂).filterMap Writer.made? = (l₁ ++ y :: l₂).filterMap Writer.made? := by
  rw [List.filterMap_append, List.filterMap_append, List.filterMap_cons, List.filterMap_cons, h]

end Others

theorem Sound.step (hs : Sound update init s) (h : next update s a = some t) :
    Sound update init t := by
  obtain ⟨hholders, hcopies, hlog, hmade⟩ := hs
  cases goes_of_next h with
  | submit op =>
    refine ⟨?_, ?_, hlog, ?_⟩
    · simpa [Writer.holds] using hholders
    · simpa using hcopies
    · rw [List.filterMap_append]
      exact hmade.trans (.of_eq (List.append_nil _).symm)
  | @lock l₁ l₂ op hl hfree =>
    refine ⟨?_, fun op' copy hmem => ?_, hlog, ?_⟩
    · have hzero : s.writers.countP Writer.holds = 0 :=
        List.countP_eq_zero.mpr fun w hw => by simp [hfree w hw]
      rw [hl, countP_others] at hzero
      simp only [countP_others, Writer.holds, Bool.toNat_true]
      omega
    · rcases mem_others (x := .waiting op) hmem with heq | hmem
      · cases heq
      · exact hcopies op' copy (hl ▸ hmem)
    · rw [hl] at hmade
      exact hmade.trans (.of_eq (made_others rfl))
  | @copy l₁ l₂ op hl =>
    refine ⟨?_, fun op' copy hmem => ?_, hlog, ?_⟩
    · rw [hl, countP_others] at hholders
      rw [countP_others]
      exact hholders
    · rcases mem_others (x := .locked op) hmem with heq | hmem
      · cases heq
        rfl
      · exact hcopies op' copy (hl ▸ hmem)
    · rw [hl] at hmade
      exact hmade.trans (.of_eq (made_others rfl))
  | @store l₁ l₂ op copy hl =>
    obtain rfl : copy = s.value := hcopies op copy (by simp [hl])
    rw [hl] at hholders hmade
    rw [countP_others] at hholders
    -- The writer that stores has the lock, so there is no other copy.
    have hothers : ∀ w, w ∈ l₁ ∨ w ∈ l₂ → w.holds = false := by
      simp only [Writer.holds, Bool.toNat_true] at hholders
      have hzero : l₁.countP Writer.holds = 0 ∧ l₂.countP Writer.holds = 0 := by omega
      rintro w (hw | hw)
      · simpa using List.countP_eq_zero.mp hzero.1 w hw
      · simpa using List.countP_eq_zero.mp hzero.2 w hw
    refine ⟨?_, fun op' copy hmem => ?_, hlog.concat op, ?_⟩
    · rw [countP_others]
      exact hholders
    · simp only [List.mem_append, List.mem_cons, reduceCtorEq, false_or] at hmem
      exact absurd (hothers _ hmem) (by simp [Writer.holds])
    · rw [List.filterMap_append, List.filterMap_cons] at hmade ⊢
      exact (List.perm_append_singleton ..).trans ((hmade.cons _).trans List.perm_middle.symm)
  | @unlock l₁ l₂ op result hl =>
    refine ⟨?_, fun op' copy hmem => ?_, hlog, ?_⟩
    · rw [hl, countP_others] at hholders
      rw [countP_others]
      simp only [Writer.holds, Bool.toNat_true, Bool.toNat_false] at hholders ⊢
      omega
    · rcases mem_others (x := .stored op result) hmem with heq | hmem
      · cases heq
      · exact hcopies op' copy (hl ▸ hmem)
    · rw [hl] at hmade
      exact hmade.trans (.of_eq (made_others rfl))

theorem sound_of_reachable (h : (system update init).Reachable s) : Sound update init s := by
  refine h.invariant (I := Sound update init) ?_ fun _ _ _ hs hstep => hs.step hstep
  rintro s rfl
  exact ⟨Nat.zero_le _, by simp [start], .nil, by simp [start]⟩

theorem log_prefix (h : (system update init).Reaches s t) : s.log <+: t.log := by
  refine h.respects (I := fun _ => True) (R := fun s t => s.log <+: t.log)
    (fun _ => List.prefix_rfl) (fun _ _ _ => List.IsPrefix.trans) (fun _ _ _ _ _ => trivial) ?_
    trivial
  intro s a t _ hstep
  cases goes_of_next hstep with
  | store hl => exact List.prefix_append _ _
  | _ => exact List.prefix_rfl

end Cell

end Snapshot
