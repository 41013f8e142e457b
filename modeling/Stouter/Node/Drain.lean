import Stouter.Lists.Basic
import Stouter.Transition.Basic

/-! # Draining a daemon

The tasks of a daemon that hold, or will hold, a guard of its
`InFlightTracker`, and `graceful_drain` beside them. Each access of the
counter, of the notifier and of the shutdown token is a step of its own, so a
task can be caught between reading its request and counting it, and a guard
between decrementing the counter and notifying.
-/

namespace Stouter

/-- What a task holds its guard for: a tunnel (asked for on a connection of its own, on a stream
of a mux session or over a reverse connection), another message of a peer, a client connection, or
an upgraded stream. -/
inductive Work
  | tunnel
  | request
  | client
  | upgraded
  deriving DecidableEq, Repr

inductive Task
  /-- A connection on which no request has arrived. -/
  | idle
  /-- A mux session, which is not counted itself. -/
  | session
  /-- The request or client is there and `track` has not been called. -/
  | received (work : Work)
  | counted (work : Work)
  /-- A tunnel that has passed `refuse_if_draining`. -/
  | accepted
  | refused
  deriving DecidableEq, Repr

def Task.guarded : Task → Bool
  | .idle => false
  | .session => false
  | .received _ => false
  | .counted _ => true
  | .accepted => true
  | .refused => true

/-- How far `wait_zero` has come: its waiter has been created and maybe woken, it has found the
counter not zero and sleeps, or it has returned. -/
inductive WaitPhase
  | start
  | registered (woken : Bool)
  | parked (woken : Bool)
  | returned (zero : Bool)
  deriving DecidableEq, Repr

inductive DrainPhase
  | running
  | signalled
  | leaving
  | waiting (wait : WaitPhase)
  deriving DecidableEq, Repr

/-- A daemon with its tasks. `notifying` guards have taken the counter to zero and have not called
`notify_waiters` yet. -/
structure Draining where
  listening : Bool
  cancelled : Bool
  count : ℕ
  notifying : ℕ
  tasks : List Task
  drain : DrainPhase
  deriving DecidableEq, Repr

inductive DrainAct
  | connect
  | dial
  | message (i : ℕ) (tunnel : Bool)
  | openSession (i : ℕ)
  | stream (i : ℕ)
  | accept
  | close (i : ℕ)
  | track (i : ℕ)
  | refuseIfDraining (i : ℕ)
  | upgrade (i : ℕ)
  | finish (i : ℕ)
  | notify
  | signal
  | cancel
  | leave
  | register
  | check
  | wake
  | timeout
  deriving DecidableEq, Repr

/-- `notify_waiters` wakes a waiter that exists and leaves nothing for later ones. -/
def DrainPhase.notified : DrainPhase → DrainPhase
  | .waiting (.registered _) => .waiting (.registered true)
  | .waiting (.parked _) => .waiting (.parked true)
  | phase => phase

/-- The token has been cancelled. -/
def DrainPhase.Begun : DrainPhase → Prop
  | .running => False
  | .signalled => False
  | .leaving => True
  | .waiting _ => True

namespace DrainPhase

theorem notified_ne_parked (d : DrainPhase) : d.notified ≠ .waiting (.parked false) := by
  rcases d with _ | _ | _ | w
  · simp [notified]
  · simp [notified]
  · simp [notified]
  · cases w <;> simp [notified]

theorem notified_eq_returned (d : DrainPhase) {zero : Bool} :
    d.notified = .waiting (.returned zero) ↔ d = .waiting (.returned zero) := by
  rcases d with _ | _ | _ | w
  · rfl
  · rfl
  · rfl
  · cases w <;> simp [notified]

theorem begun_notified (d : DrainPhase) : d.notified.Begun ↔ d.Begun := by
  rcases d with _ | _ | _ | w
  · rfl
  · rfl
  · rfl
  · cases w <;> rfl

end DrainPhase

namespace Draining

def started : Draining := ⟨true, false, 0, 0, [], .running⟩

def next (s : Draining) : DrainAct → Option Draining
  | .connect => if s.listening then some { s with tasks := s.tasks ++ [.idle] } else none
  -- A reverse worker may have looked at the token before it was cancelled.
  | .dial => some { s with tasks := s.tasks ++ [.idle] }
  | .message i tunnel =>
    match s.tasks[i]? with
    | some .idle =>
      some { s with tasks := s.tasks.set i (.received (if tunnel then .tunnel else .request)) }
    | _ => none
  | .openSession i =>
    match s.tasks[i]? with
    | some .idle => some { s with tasks := s.tasks.set i .session }
    | _ => none
  -- A session goes on accepting streams after the token is cancelled.
  | .stream i =>
    match s.tasks[i]? with
    | some .session => some { s with tasks := s.tasks ++ [.received .tunnel] }
    | _ => none
  -- `select!` may take the accept branch of a local proxy although the token is cancelled.
  | .accept => some { s with tasks := s.tasks ++ [.received .client] }
  | .close i =>
    match s.tasks[i]? with
    | some .idle => some { s with tasks := s.tasks.eraseIdx i }
    | some .session => some { s with tasks := s.tasks.eraseIdx i }
    | _ => none
  | .track i =>
    match s.tasks[i]? with
    | some (.received work) =>
      some { s with tasks := s.tasks.set i (.counted work), count := s.count + 1 }
    | _ => none
  | .refuseIfDraining i =>
    match s.tasks[i]? with
    | some (.counted .tunnel) =>
      some { s with tasks := s.tasks.set i (if s.cancelled then .refused else .accepted) }
    | _ => none
  -- The guard of the connection is still held when the upgraded stream gets its own.
  | .upgrade i =>
    match s.tasks[i]? with
    | some (.counted .client) =>
      some { s with tasks := s.tasks ++ [.counted .upgraded], count := s.count + 1 }
    | _ => none
  | .finish i =>
    match s.tasks[i]? with
    | some task =>
      if task.guarded then some { s with
        tasks := s.tasks.eraseIdx i
        count := s.count - 1
        notifying := if s.count = 1 then s.notifying + 1 else s.notifying }
      else none
    | none => none
  | .notify =>
    if s.notifying = 0 then none
    else some { s with notifying := s.notifying - 1, drain := s.drain.notified }
  -- `select!` in `main` drops the accept loop before it runs the handler.
  | .signal =>
    match s.drain with
    | .running => some { s with listening := false, drain := .signalled }
    | _ => none
  | .cancel =>
    match s.drain with
    | .signalled => some { s with cancelled := true, drain := .leaving }
    | _ => none
  | .leave =>
    match s.drain with
    | .leaving => some { s with drain := .waiting .start }
    | _ => none
  | .register =>
    match s.drain with
    | .waiting .start => some { s with drain := .waiting (.registered false) }
    | _ => none
  | .check =>
    match s.drain with
    | .waiting (.registered woken) =>
      some { s with drain := .waiting (if s.count = 0 then .returned true else .parked woken) }
    | _ => none
  | .wake =>
    match s.drain with
    | .waiting (.parked true) => some { s with drain := .waiting .start }
    | _ => none
  | .timeout =>
    match s.drain with
    | .waiting (.parked _) => some { s with drain := .waiting (.returned false) }
    | _ => none

def system : Transition Draining DrainAct := Transition.ofNext (· = started) next

/-! ## What a step does -/

variable {s t : Draining} {a : DrainAct}

inductive Goes (s : Draining) : Draining → Prop
  | arrive {task : Task} (hg : task.guarded = false) : Goes s { s with tasks := s.tasks ++ [task] }
  | turn {l₁ l₂ : List Task} {x y : Task} (hl : s.tasks = l₁ ++ x :: l₂) (hx : x.guarded = false)
      (hy : y.guarded = false) : Goes s { s with tasks := l₁ ++ y :: l₂ }
  | close {l₁ l₂ : List Task} {x : Task} (hl : s.tasks = l₁ ++ x :: l₂) (hx : x.guarded = false) :
      Goes s { s with tasks := l₁ ++ l₂ }
  | track {l₁ l₂ : List Task} {work : Work} (hl : s.tasks = l₁ ++ .received work :: l₂) :
      Goes s { s with tasks := l₁ ++ .counted work :: l₂, count := s.count + 1 }
  | refuseIfDraining {l₁ l₂ : List Task} (hl : s.tasks = l₁ ++ .counted .tunnel :: l₂) :
      Goes s { s with tasks := l₁ ++ (if s.cancelled then .refused else .accepted) :: l₂ }
  | upgrade : Goes s { s with tasks := s.tasks ++ [.counted .upgraded], count := s.count + 1 }
  | finish {l₁ l₂ : List Task} {x : Task} (hl : s.tasks = l₁ ++ x :: l₂) (hx : x.guarded = true) :
      Goes s { s with
        tasks := l₁ ++ l₂
        count := s.count - 1
        notifying := if s.count = 1 then s.notifying + 1 else s.notifying }
  | notify (hn : s.notifying ≠ 0) :
      Goes s { s with notifying := s.notifying - 1, drain := s.drain.notified }
  | signal (hd : s.drain = .running) : Goes s { s with listening := false, drain := .signalled }
  | cancel (hd : s.drain = .signalled) : Goes s { s with cancelled := true, drain := .leaving }
  | leave (hd : s.drain = .leaving) : Goes s { s with drain := .waiting .start }
  | register (hd : s.drain = .waiting .start) :
      Goes s { s with drain := .waiting (.registered false) }
  | check {woken : Bool} (hd : s.drain = .waiting (.registered woken)) :
      Goes s { s with drain := .waiting (if s.count = 0 then .returned true else .parked woken) }
  | wake (hd : s.drain = .waiting (.parked true)) : Goes s { s with drain := .waiting .start }
  | timeout {woken : Bool} (hd : s.drain = .waiting (.parked woken)) :
      Goes s { s with drain := .waiting (.returned false) }

theorem goes_of_set {i : ℕ} {x y : Task} (hi : s.tasks[i]? = some x) (hx : x.guarded = false)
    (hy : y.guarded = false) : Goes s { s with tasks := s.tasks.set i y } := by
  obtain ⟨l₁, l₂, hl, hset, -⟩ := List.split_of_getElem? hi
  rw [hset]
  exact .turn hl hx hy

theorem goes_of_erase {i : ℕ} {x : Task} (hi : s.tasks[i]? = some x) (hx : x.guarded = false) :
    Goes s { s with tasks := s.tasks.eraseIdx i } := by
  obtain ⟨l₁, l₂, hl, -, herase⟩ := List.split_of_getElem? hi
  rw [herase]
  exact .close hl hx

theorem goes_of_next (h : next s a = some t) : Goes s t := by
  cases a with
  | connect =>
    simp only [next] at h
    split_ifs at h
    cases h
    exact .arrive rfl
  | dial =>
    cases h
    exact .arrive rfl
  | message i tunnel =>
    simp only [next] at h
    split at h <;> cases h
    next hi => exact goes_of_set hi rfl (by cases tunnel <;> rfl)
  | openSession i =>
    simp only [next] at h
    split at h <;> cases h
    next hi => exact goes_of_set hi rfl rfl
  | stream i =>
    simp only [next] at h
    split at h <;> cases h
    exact .arrive rfl
  | accept =>
    cases h
    exact .arrive rfl
  | close i =>
    simp only [next] at h
    split at h <;> cases h
    next hi => exact goes_of_erase hi rfl
    next hi => exact goes_of_erase hi rfl
  | track i =>
    simp only [next] at h
    split at h <;> cases h
    next work hi =>
      obtain ⟨l₁, l₂, hl, hset, -⟩ := List.split_of_getElem? hi
      rw [hset]
      exact .track hl
  | refuseIfDraining i =>
    simp only [next] at h
    split at h <;> cases h
    next hi =>
      obtain ⟨l₁, l₂, hl, hset, -⟩ := List.split_of_getElem? hi
      rw [hset]
      exact .refuseIfDraining hl
  | upgrade i =>
    simp only [next] at h
    split at h <;> cases h
    exact .upgrade
  | finish i =>
    simp only [next] at h
    split at h
    · next task hi =>
      obtain ⟨hg, h⟩ := Option.ite_none_right_eq_some.mp h
      cases h
      obtain ⟨l₁, l₂, hl, -, herase⟩ := List.split_of_getElem? hi
      rw [herase]
      exact .finish hl hg
    · cases h
  | notify =>
    simp only [next] at h
    split_ifs at h with hn
    cases h
    exact .notify hn
  | signal =>
    simp only [next] at h
    split at h <;> cases h
    exact .signal ‹_›
  | cancel =>
    simp only [next] at h
    split at h <;> cases h
    exact .cancel ‹_›
  | leave =>
    simp only [next] at h
    split at h <;> cases h
    exact .leave ‹_›
  | register =>
    simp only [next] at h
    split at h <;> cases h
    exact .register ‹_›
  | check =>
    simp only [next] at h
    split at h <;> cases h
    exact .check ‹_›
  | wake =>
    simp only [next] at h
    split at h <;> cases h
    exact .wake ‹_›
  | timeout =>
    simp only [next] at h
    split at h <;> cases h
    exact .timeout ‹_›

/-! ## The invariant -/

/-- The counter counts the guards, a drain only sleeps at zero while somebody is about to wake it,
and once it has seen zero there is no accepted tunnel. -/
structure Sound (s : Draining) : Prop where
  counts : s.count = s.tasks.countP Task.guarded
  wakes : s.drain = .waiting (.parked false) → s.count = 0 → 0 < s.notifying
  begun : s.drain.Begun → s.cancelled = true
  gone : s.drain = .waiting (.returned true) → .accepted ∉ s.tasks

theorem sound_started : Sound started :=
  ⟨rfl, by simp [started], by simp [started, DrainPhase.Begun], by simp [started]⟩

theorem Sound.setTasks (h : Sound s) {tasks : List Task} {count notifying : ℕ}
    (hcounts : count = tasks.countP Task.guarded)
    (hwakes : count = 0 → s.count = 0 ∧ s.notifying = notifying ∨ 0 < notifying)
    (hgone : s.cancelled = true → .accepted ∈ tasks → .accepted ∈ s.tasks) :
    Sound { s with tasks, count, notifying } := by
  refine ⟨hcounts, ?_, h.begun, ?_⟩
  · intro hd hzero
    rcases hwakes hzero with ⟨hcount, rfl⟩ | hpos
    · exact h.wakes hd hcount
    · exact hpos
  · intro hd hmem
    have hd' : s.drain = .waiting (.returned true) := hd
    exact h.gone hd (hgone (h.begun (by rw [hd']; trivial)) hmem)

theorem Sound.setDrain (h : Sound s) {drain : DrainPhase} {cancelled listening : Bool}
    (hwakes : drain = .waiting (.parked false) → s.count ≠ 0)
    (hbegun : drain.Begun → cancelled = true)
    (hgone : drain = .waiting (.returned true) → s.count = 0) :
    Sound { s with drain, cancelled, listening } := by
  refine ⟨h.counts, fun hd hzero => absurd hzero (hwakes hd), hbegun, ?_⟩
  intro hd hmem
  have hzero := hgone hd
  rw [h.counts, List.countP_eq_zero] at hzero
  exact absurd rfl (hzero _ hmem)

theorem Sound.step (h : Sound s) (hg : Goes s t) : Sound t := by
  have hcounts := h.counts
  cases hg with
  | @arrive task hg =>
    refine h.setTasks ?_ (fun hzero => .inl ⟨hzero, rfl⟩) ?_
    · simp [hcounts, hg]
    · rintro - hmem
      rcases List.mem_append.mp hmem with hmem | hmem
      · exact hmem
      · rw [← List.mem_singleton.mp hmem] at hg
        cases hg
  | @turn l₁ l₂ x y hl hx hy =>
    rw [hl] at hcounts
    refine h.setTasks ?_ (fun hzero => .inl ⟨hzero, rfl⟩) ?_
    · simpa [hx, hy] using hcounts
    · rintro - hmem
      rw [hl]
      simp only [List.mem_append, List.mem_cons] at hmem ⊢
      rcases hmem with hmem | rfl | hmem
      · exact .inl hmem
      · cases hy
      · exact .inr (.inr hmem)
  | @close l₁ l₂ x hl hx =>
    rw [hl] at hcounts
    refine h.setTasks ?_ (fun hzero => .inl ⟨hzero, rfl⟩) ?_
    · simpa [hx] using hcounts
    · rintro - hmem
      rw [hl]
      simp only [List.mem_append, List.mem_cons] at hmem ⊢
      tauto
  | @track l₁ l₂ work hl =>
    rw [hl] at hcounts
    refine h.setTasks ?_ (fun hzero => absurd hzero (by omega)) ?_
    · simp only [List.countP_append, List.countP_cons, Task.guarded] at hcounts ⊢
      simp only [if_true, Bool.false_eq_true, if_false] at hcounts ⊢
      omega
    · rintro - hmem
      rw [hl]
      simpa using hmem
  | @refuseIfDraining l₁ l₂ hl =>
    rw [hl] at hcounts
    refine h.setTasks ?_ (fun hzero => .inl ⟨hzero, rfl⟩) ?_
    · have hguarded : (if s.cancelled then Task.refused else .accepted).guarded = true := by
        split_ifs <;> rfl
      rw [List.countP_append, List.countP_cons] at hcounts ⊢
      rw [hguarded]
      exact hcounts
    · intro hc hmem
      rw [hl]
      simpa [hc] using hmem
  | upgrade =>
    refine h.setTasks ?_ (fun hzero => absurd hzero (by omega)) ?_
    · simp [hcounts, Task.guarded]
    · rintro - hmem
      simpa using hmem
  | @finish l₁ l₂ x hl hx =>
    rw [hl] at hcounts
    have hone : s.count = (l₁ ++ l₂).countP Task.guarded + 1 := by
      simp [hx] at hcounts ⊢
      omega
    refine h.setTasks ?_ ?_ ?_
    · omega
    · intro hzero
      rw [if_pos (by omega)]
      exact .inr (by omega)
    · rintro - hmem
      rw [hl]
      simp only [List.mem_append, List.mem_cons] at hmem ⊢
      tauto
  | notify hn =>
    refine ⟨hcounts, ?_, ?_, ?_⟩
    · intro hd
      exact absurd hd s.drain.notified_ne_parked
    · intro hb
      exact h.begun (s.drain.begun_notified.mp hb)
    · intro hd
      exact h.gone (s.drain.notified_eq_returned.mp hd)
  | signal hd => exact h.setDrain (by simp) (by simp [DrainPhase.Begun]) (by simp)
  | cancel hd => exact h.setDrain (by simp) (fun _ => rfl) (by simp)
  | leave hd => exact h.setDrain (by simp) (fun _ => h.begun (by rw [hd]; trivial)) (by simp)
  | register hd => exact h.setDrain (by simp) (fun _ => h.begun (by rw [hd]; trivial)) (by simp)
  | check hd =>
    refine h.setDrain ?_ (fun _ => h.begun (by rw [hd]; trivial)) ?_
    · split_ifs with hzero <;> simp [hzero]
    · split_ifs with hzero <;> simp [hzero]
  | wake hd => exact h.setDrain (by simp) (fun _ => h.begun (by rw [hd]; trivial)) (by simp)
  | timeout hd => exact h.setDrain (by simp) (fun _ => h.begun (by rw [hd]; trivial)) (by simp)

theorem sound_of_reachable (h : system.Reachable s) : Sound s := by
  refine h.invariant (I := Sound) ?_ fun _ _ _ hs h => hs.step (goes_of_next h)
  rintro s rfl
  exact sound_started

/-! ## The end of a drain -/

theorem Goes.returned {zero : Bool} (hg : Goes s t) (hd : s.drain = .waiting (.returned zero)) :
    t.drain = .waiting (.returned zero) := by
  cases hg with
  | notify hn => exact s.drain.notified_eq_returned.mpr hd
  | signal hd' => simp [hd] at hd'
  | cancel hd' => simp [hd] at hd'
  | leave hd' => simp [hd] at hd'
  | register hd' => simp [hd] at hd'
  | check hd' => simp [hd] at hd'
  | wake hd' => simp [hd] at hd'
  | timeout hd' => simp [hd] at hd'
  | _ => exact hd

theorem returned_of_reaches {zero : Bool} (h : system.Reaches s t)
    (hd : s.drain = .waiting (.returned zero)) : t.drain = .waiting (.returned zero) :=
  h.preserves (I := fun s => s.drain = .waiting (.returned zero))
    (fun _ _ _ hd hstep => (goes_of_next hstep).returned hd) hd

/-- When a drain sees the counter at zero, the token is cancelled and no task holds a guard; and
from then on no tunnel is being served, in any continuation. -/
theorem drained_no_tunnels :
    (∀ s t, system.Reachable s → next s .check = some t → t.drain = .waiting (.returned true) →
      t.cancelled = true ∧ ∀ task ∈ t.tasks, task.guarded = false) ∧
    ∀ s t, system.Reachable s → s.drain = .waiting (.returned true) → system.Reaches s t →
      .accepted ∉ t.tasks := by
  constructor
  · intro s t hs hcheck hd
    have ht := sound_of_reachable (hs.snoc (S := system) hcheck)
    refine ⟨ht.begun (by rw [hd]; trivial), ?_⟩
    simp only [next] at hcheck
    split at hcheck <;> cases hcheck
    have hzero : s.count = 0 := by
      by_contra hne
      simp [hne] at hd
    have hcounts := ht.counts
    rw [show s.count = 0 from hzero, eq_comm, List.countP_eq_zero] at hcounts
    intro task htask
    simpa using hcounts task htask
  · intro s t hs hd hst
    exact (sound_of_reachable (hs.trans hst)).gone (returned_of_reaches hst hd)

/-- One tunnel is served when the drain begins, and ends while it sleeps. -/
def drainedTunnel : Draining :=
  Transition.run next started
    [.connect, .message 0 true, .track 0, .refuseIfDraining 0, .signal, .cancel, .leave, .register,
      .check, .finish 0, .notify, .wake, .register]

theorem drained_no_tunnels_drainedTunnel :
    ∃ t, next drainedTunnel .check = some t ∧ t.cancelled = true ∧ .accepted ∉ t.tasks := by
  have hr : system.Reachable drainedTunnel := ⟨_, rfl, Transition.reaches_run rfl⟩
  have hstep : next drainedTunnel .check = some (Transition.run next drainedTunnel [.check]) := rfl
  obtain ⟨hcheck, hlater⟩ := drained_no_tunnels
  refine ⟨_, hstep, (hcheck _ _ hr hstep rfl).1, ?_⟩
  exact hlater _ _ (hr.snoc (S := system) hstep) rfl (.refl _)

/-- The counter is the number of guards; a drain that sleeps although there are none is about to
be woken; and when nobody is about to notify it, a drain that has not given up answers within three
steps of its own. -/
theorem drain_not_missed (h : system.Reachable s) :
    s.count = s.tasks.countP Task.guarded ∧
    ((∀ task ∈ s.tasks, task.guarded = false) → s.drain = .waiting (.parked false) →
      0 < s.notifying) ∧
    ((∀ task ∈ s.tasks, task.guarded = false) → s.notifying = 0 →
      ∀ wait, s.drain = .waiting wait → wait ≠ .returned false →
        ∃ acts, acts <:+ [.wake, .register, .check] ∧
          ∃ t, Transition.exec next s acts = some t ∧ t.drain = .waiting (.returned true)) := by
  have hs := sound_of_reachable h
  have hzero : (∀ task ∈ s.tasks, task.guarded = false) → s.count = 0 := by
    intro hnone
    rw [hs.counts, List.countP_eq_zero]
    intro task htask
    simp [hnone task htask]
  refine ⟨hs.counts, fun hnone hd => hs.wakes hd (hzero hnone), ?_⟩
  intro hnone hn wait hd hwait
  have hcount := hzero hnone
  have hends : ∀ acts, acts <:+ [.wake, .register, .check] →
      Transition.exec next s acts = some { s with drain := .waiting (.returned true) } →
      ∃ acts, acts <:+ [.wake, .register, .check] ∧
        ∃ t, Transition.exec next s acts = some t ∧ t.drain = .waiting (.returned true) :=
    fun acts hacts he => ⟨acts, hacts, _, he, rfl⟩
  cases wait with
  | start =>
    exact hends [.register, .check] ⟨[.wake], rfl⟩ (by simp [Transition.exec, next, hd, hcount])
  | registered woken =>
    exact hends [.check] ⟨[.wake, .register], rfl⟩ (by simp [Transition.exec, next, hd, hcount])
  | parked woken =>
    cases woken with
    | false =>
      have hpos := hs.wakes hd hcount
      omega
    | true =>
      exact hends [.wake, .register, .check] ⟨[], rfl⟩
        (by simp [Transition.exec, next, hd, hcount])
  | returned zero =>
    cases zero with
    | false => exact absurd rfl hwait
    | true => exact ⟨[], ⟨[.wake, .register, .check], rfl⟩, s, rfl, hd⟩

theorem drain_not_missed_drainedTunnel :
    drainedTunnel.count = 0 ∧ ∃ acts, acts <:+ [DrainAct.wake, .register, .check] ∧
      ∃ t, Transition.exec next drainedTunnel acts = some t ∧
        t.drain = .waiting (.returned true) := by
  have hr : system.Reachable drainedTunnel := ⟨_, rfl, Transition.reaches_run rfl⟩
  obtain ⟨hcount, -, hends⟩ := drain_not_missed hr
  exact ⟨hcount, hends (by decide) rfl _ rfl (by simp)⟩

end Draining

end Stouter
