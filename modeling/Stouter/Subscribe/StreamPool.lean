import Mathlib.Algebra.Order.Group.Nat
import Mathlib.Algebra.Ring.Nat
import Stouter.Lists.Basic
import Stouter.Maps.Basic
import Stouter.Transition.Basic

/-! # The stream pool

Idle connections under string keys, and for each key a notifier that the first
waiting `take` creates. Every section under a lock is one step, and so is every
call of the notifier: enabling a waiter takes the stored permit or registers
it, `notify_one` wakes one registered waiter or stores a permit, and a waiter
that is dropped after it was notified passes the notification on. A permit that
enabling has taken may be passed on as well or not.
-/

namespace Stouter

/-- What a waiter has got: nothing yet, a notification, or the stored permit. -/
inductive Waiter
  | waiting
  | notified
  | ready
  deriving DecidableEq, Repr

/-- How far a `take` has come; `woken` is set from a wake-up to the next look at the pool. -/
inductive TakePhase
  | start (woken : Bool)
  | notifier (woken : Bool)
  | enabled (waiter : Waiter) (woken : Bool)
  | parked (waiter : Waiter)
  deriving DecidableEq, Repr

structure Take where
  key : String
  phase : TakePhase
  deriving DecidableEq, Repr

/-- A `push` that has inserted its connection and has not notified yet; `fetched` once it has
looked up the notifier. -/
structure Push where
  key : String
  fetched : Bool
  deriving DecidableEq, Repr

/-- The pool with its running calls, and the connections pushed and returned so far, each with its
key. The value of a notifier is whether it holds a permit. -/
structure StreamPool (τ : Type) where
  connections : HashMap String (List τ)
  notifiers : HashMap String Bool
  pushes : List Push
  takes : List Take
  pushed : List (String × τ)
  returned : List (String × τ)

inductive PoolAct (τ : Type)
  | pushInsert (key : String) (stream : τ)
  | pushFetch (i : ℕ)
  | pushNotify (i woken : ℕ)
  | takeStart (key : String)
  | takeNotifier (i : ℕ)
  | takeEnable (i : ℕ)
  | takeCheck (i : ℕ) (passes : Bool) (woken : ℕ)
  | takeWake (i : ℕ)
  | takeTimeout (i : ℕ) (passes : Bool) (woken : ℕ)
  | tryTake (key : String)

namespace Take

/-- The waiter is registered and has not been notified. -/
def listens (t : Take) : Bool :=
  match t.phase with
  | .enabled .waiting _ => true
  | .parked .waiting => true
  | _ => false

def notify (t : Take) : Take :=
  match t.phase with
  | .enabled _ woken => ⟨t.key, .enabled .notified woken⟩
  | .parked _ => ⟨t.key, .parked .notified⟩
  | _ => t

end Take

namespace StreamPool

variable {τ : Type}

def new : StreamPool τ := ⟨∅, ∅, [], [], [], []⟩

def idle (s : StreamPool τ) (key : String) : List τ := (s.connections.lookup key).getD []

/-- `Notify::notify_one`, waking the take of this index if there is one to wake. -/
def notifyOne (s : StreamPool τ) (key : String) (woken : ℕ) : Option (StreamPool τ) :=
  if s.takes.any fun t => t.key == key && t.listens then
    match s.takes[woken]? with
    | some t =>
      if t.key = key ∧ t.listens = true then some { s with takes := s.takes.set woken t.notify }
      else none
    | none => none
  else some { s with notifiers := s.notifiers.insert key true }

/-- The waiter of a take that ends is dropped. -/
def dropWaiter (s : StreamPool τ) (key : String) (w : Waiter) (passes : Bool) (woken : ℕ) :
    Option (StreamPool τ) :=
  match w with
  | .waiting => some s
  | .notified => s.notifyOne key woken
  | .ready => if passes then s.notifyOne key woken else some s

def next (s : StreamPool τ) : PoolAct τ → Option (StreamPool τ)
  | .pushInsert key stream => some { s with
      connections := s.connections.insert key (s.idle key ++ [stream])
      pushes := s.pushes ++ [⟨key, false⟩]
      pushed := (key, stream) :: s.pushed }
  | .pushFetch i =>
    match s.pushes[i]? with
    | some ⟨key, false⟩ =>
      if key ∈ s.notifiers then some { s with pushes := s.pushes.set i ⟨key, true⟩ }
      else some { s with pushes := s.pushes.eraseIdx i }
    | _ => none
  | .pushNotify i woken =>
    match s.pushes[i]? with
    | some ⟨key, true⟩ => { s with pushes := s.pushes.eraseIdx i }.notifyOne key woken
    | _ => none
  | .takeStart key => some { s with takes := s.takes ++ [⟨key, .start false⟩] }
  | .takeNotifier i =>
    match s.takes[i]? with
    | some ⟨key, .start woken⟩ => some { s with
        notifiers := if key ∈ s.notifiers then s.notifiers else s.notifiers.insert key false
        takes := s.takes.set i ⟨key, .notifier woken⟩ }
    | _ => none
  | .takeEnable i =>
    match s.takes[i]? with
    | some ⟨key, .notifier woken⟩ =>
      if s.notifiers.lookup key = some true then some { s with
        notifiers := s.notifiers.insert key false
        takes := s.takes.set i ⟨key, .enabled .ready woken⟩ }
      else some { s with takes := s.takes.set i ⟨key, .enabled .waiting woken⟩ }
    | _ => none
  | .takeCheck i passes woken =>
    match s.takes[i]? with
    | some ⟨key, .enabled w _⟩ =>
      match (s.idle key).getLast? with
      | some stream => { s with
          connections := s.connections.insert key (s.idle key).dropLast
          takes := s.takes.eraseIdx i
          returned := (key, stream) :: s.returned }.dropWaiter key w passes woken
      | none => some { s with takes := s.takes.set i ⟨key, .parked w⟩ }
    | _ => none
  | .takeWake i =>
    match s.takes[i]? with
    | some ⟨key, .parked w⟩ =>
      if w = .waiting then none else some { s with takes := s.takes.set i ⟨key, .start true⟩ }
    | _ => none
  | .takeTimeout i passes woken =>
    match s.takes[i]? with
    | some ⟨key, .parked w⟩ =>
      { s with takes := s.takes.eraseIdx i }.dropWaiter key w passes woken
    | _ => none
  | .tryTake key =>
    match (s.idle key).getLast? with
    | some stream => some { s with
        connections := s.connections.insert key (s.idle key).dropLast
        returned := (key, stream) :: s.returned }
    | none => some s

def system (τ : Type) : Transition (StreamPool τ) (PoolAct τ) := Transition.ofNext (· = new) next

/-- A push of the key is between inserting and notifying. -/
def Pushing (s : StreamPool τ) (key : String) : Prop := ∃ p ∈ s.pushes, p.key = key

def Parked (s : StreamPool τ) (key : String) : Prop := ∃ w, ⟨key, .parked w⟩ ∈ s.takes

end StreamPool

/-- The take has been notified, or has taken a permit, and has not looked at the pool since. -/
def TakePhase.WakeUp : TakePhase → Prop
  | .start woken => woken = true
  | .notifier woken => woken = true
  | .enabled w woken => w ≠ .waiting ∨ woken = true
  | .parked w => w ≠ .waiting

def StreamPool.WakeUpPending {τ : Type} (s : StreamPool τ) (key : String) : Prop :=
  s.notifiers.lookup key = some true ∨ ∃ t ∈ s.takes, t.key = key ∧ t.phase.WakeUp

/-! ## Counting wake-ups -/

/-- The wake-ups a take carries: one it has been woken by and one its waiter has got since. -/
def Take.weight (t : Take) : ℕ :=
  match t.phase with
  | .start woken => woken.toNat
  | .notifier woken => woken.toNat
  | .enabled w woken => woken.toNat + if w = .notified then 1 else 0
  | .parked w => if w = .notified then 1 else 0

namespace StreamPool

variable {τ : Type} {s t : StreamPool τ} {key : String} {takes l₁ l₂ : List Take} {x y : Take}

def wakeUps (takes : List Take) (key : String) : ℕ :=
  (takes.map fun t => if t.key = key then t.weight else 0).sum

@[simp] theorem wakeUps_append :
    wakeUps (l₁ ++ l₂) key = wakeUps l₁ key + wakeUps l₂ key := by
  simp [wakeUps]

@[simp] theorem wakeUps_cons :
    wakeUps (x :: takes) key = (if x.key = key then x.weight else 0) + wakeUps takes key := by
  simp [wakeUps]

theorem exists_of_wakeUps_pos (h : 0 < wakeUps takes key) :
    ∃ t ∈ takes, t.key = key ∧ 0 < t.weight := by
  induction takes with
  | nil => simp [wakeUps] at h
  | cons x takes ih =>
    rw [wakeUps_cons] at h
    by_cases hx : x.key = key ∧ 0 < x.weight
    · exact ⟨x, List.mem_cons_self, hx⟩
    · have hzero : (if x.key = key then x.weight else 0) = 0 := by
        split_ifs with hk
        · by_contra hw
          exact hx ⟨hk, Nat.pos_of_ne_zero hw⟩
        · rfl
      obtain ⟨t, ht, hrest⟩ := ih (by omega)
      exact ⟨t, List.mem_cons_of_mem x ht, hrest⟩

def inFlight (pushes : List Push) (key : String) : ℕ := pushes.countP (·.key == key)

/-- A take has found the pool empty and waits for a notification. -/
def Waits (takes : List Take) (key : String) : Prop := ⟨key, .parked .waiting⟩ ∈ takes

theorem Waits.exists_listens (h : Waits takes key) : ∃ t ∈ takes, t.key = key ∧ t.listens = true :=
  ⟨_, h, rfl, rfl⟩

/-- The invariant, with the notifications owed for each key: a take that holds a notifier has one
in the map, and that has no permit while the take listens; a take only waits while every idle
connection is covered by a push, a wake-up or a debt; and the connections of each key are idle or
returned. -/
structure Sound [DecidableEq τ] (owed : String → ℕ) (s : StreamPool τ) : Prop where
  known : ∀ t ∈ s.takes, (∀ woken, t.phase ≠ .start woken) → t.key ∈ s.notifiers
  silent : ∀ t ∈ s.takes, t.listens = true → s.notifiers.lookup t.key = some false
  enough : ∀ key, Waits s.takes key →
    (s.idle key).length ≤ inFlight s.pushes key + wakeUps s.takes key + owed key
  kept : ∀ key stream, s.pushed.count (key, stream) =
    (s.idle key).count stream + s.returned.count (key, stream)

variable [DecidableEq τ] {owed owed' : String → ℕ}

theorem sound_new : Sound (fun _ => 0) (new : StreamPool τ) := by
  constructor
  · simp [new]
  · simp [new]
  · simp [new, Waits]
  · simp [new, idle]

/-- A take goes on, without losing a wake-up unless the pool is empty; one it gets pays a debt. -/
theorem Sound.setTake (h : Sound owed s) (hl : s.takes = l₁ ++ x :: l₂) (hk : y.key = x.key)
    (hknown : x.key ∈ s.notifiers)
    (hlistens : y.listens = true → s.notifiers.lookup x.key = some false)
    (hwaits : y.phase = .parked .waiting → x.phase = .parked .waiting ∨ s.idle x.key = [])
    (hweight : x.weight + owed x.key ≤ y.weight + owed' x.key ∨ s.idle x.key = [])
    (howed : ∀ k, k ≠ x.key → owed k ≤ owed' k) :
    Sound owed' { s with takes := l₁ ++ y :: l₂ } := by
  have hold : ∀ t ∈ l₁ ++ y :: l₂, t = y ∨ t ∈ s.takes := by
    intro t ht
    rw [hl]
    simp only [List.mem_append, List.mem_cons] at ht ⊢
    tauto
  constructor
  · intro t ht hphase
    rcases hold t ht with rfl | ht
    · rwa [hk]
    · exact h.known t ht hphase
  · intro t ht hlisten
    rcases hold t ht with rfl | ht
    · rw [hk]
      exact hlistens hlisten
    · exact h.silent t ht hlisten
  · intro key hw
    by_cases hidle : s.idle key = []
    · exact (congrArg List.length hidle).trans_le (Nat.zero_le _)
    · have hwait : Waits s.takes key := by
        rcases hold _ hw with hy | hmem
        · have hkey : x.key = key := by rw [← hk, ← hy]
          rcases hwaits (by rw [← hy]) with hx | hempty
          · have hx' : x = ⟨key, .parked .waiting⟩ := by
              rw [← hkey, ← hx]
            rw [Waits, hl, hx']
            simp
          · exact absurd (hkey ▸ hempty) hidle
        · exact hmem
      have hle := h.enough key hwait
      rw [hl, wakeUps_append, wakeUps_cons] at hle
      rw [wakeUps_append, wakeUps_cons, hk]
      by_cases hkey : x.key = key
      · subst hkey
        rcases hweight with hweight | hempty
        · rw [if_pos rfl] at hle ⊢
          exact hle.trans (by dsimp only; omega)
        · exact absurd hempty hidle
      · have hdebt := howed key fun he => hkey he.symm
        rw [if_neg hkey] at hle ⊢
        exact hle.trans (by dsimp only; omega)
  · exact h.kept

theorem Sound.setNotifiers (h : Sound owed s) {m : HashMap String Bool}
    (hm : ∀ k, k ∈ s.notifiers → k ∈ m)
    (hs : ∀ t ∈ s.takes, t.listens = true → m.lookup t.key = some false) :
    Sound owed { s with notifiers := m } :=
  ⟨fun t ht hp => hm t.key (h.known t ht hp), hs, h.enough, h.kept⟩

def owes (key k : String) : ℕ := if k = key then 1 else 0

theorem notify_of_listens (h : x.listens = true) :
    x.notify.key = x.key ∧ ¬x.notify.listens = true ∧ x.notify.phase ≠ .parked .waiting ∧
      x.notify.weight = x.weight + 1 := by
  obtain ⟨key, phase⟩ := x
  rcases phase with _ | _ | ⟨_ | _ | _, woken⟩ | ⟨_ | _ | _⟩ <;>
    simp [Take.listens, Take.notify, Take.weight] at h ⊢

/-- A notification that is owed is paid: it wakes a take that listens, or no take waits. -/
theorem Sound.notifyOne (h : Sound (owes key) s) {woken : ℕ}
    (ht : s.notifyOne key woken = some t) : Sound (fun _ => 0) t := by
  unfold StreamPool.notifyOne at ht
  by_cases hany : (s.takes.any fun t => t.key == key && t.listens) = true
  · rw [if_pos hany] at ht
    cases hx : s.takes[woken]? with
    | none =>
      rw [hx] at ht
      cases ht
    | some x =>
      rw [hx] at ht
      dsimp only at ht
      split_ifs at ht with hwake
      obtain ⟨rfl, hlistens⟩ := hwake
      obtain ⟨l₁, l₂, hl, hset, _⟩ := List.split_of_getElem? hx
      obtain rfl := Option.some.inj ht
      rw [hset]
      have hsilent := h.silent x (by rw [hl]; simp) hlistens
      have hknown : x.key ∈ s.notifiers := HashMap.mem_of_lookup hsilent
      obtain ⟨hkey, hstill, hphase, hweight⟩ := notify_of_listens hlistens
      refine h.setTake hl hkey hknown (fun hc => absurd hc hstill) (fun hc => absurd hc hphase)
        (.inl ?_) ?_
      · rw [owes, if_pos rfl, hweight]
      · intro k hk
        rw [owes, if_neg hk]
  · rw [if_neg hany] at ht
    obtain rfl := Option.some.inj ht
    have hnone : ∀ t ∈ s.takes, t.listens = true → t.key ≠ key := by
      intro t ht hlistens hk
      exact hany (List.any_eq_true.mpr ⟨t, ht, by simp [hk, hlistens]⟩)
    constructor
    · intro t ht hphase
      exact (AList.mem_insert _).mpr (.inr (h.known t ht hphase))
    · intro t ht hlistens
      rw [HashMap.lookup_insert_eq_ite, if_neg (hnone t ht hlistens)]
      exact h.silent t ht hlistens
    · intro k hw
      obtain ⟨t, ht, hk, hlistens⟩ := hw.exists_listens
      have hne : k ≠ key := hk ▸ hnone t ht hlistens
      have hle := h.enough k hw
      rwa [owes, if_neg hne] at hle
    · exact h.kept

theorem Sound.eraseTake (h : Sound (fun _ => 0) s) (hl : s.takes = l₁ ++ x :: l₂)
    {connections : HashMap String (List τ)} {returned : List (String × τ)}
    (hidle : ∀ k, ((connections.lookup k).getD []).length + (if x.key = k then x.weight else 0) ≤
      (s.idle k).length + owed k)
    (hkept : ∀ k stream, s.pushed.count (k, stream) =
      ((connections.lookup k).getD []).count stream + returned.count (k, stream)) :
    Sound owed { s with connections, takes := l₁ ++ l₂, returned } := by
  have hold : ∀ t ∈ l₁ ++ l₂, t ∈ s.takes := by
    intro t ht
    rw [hl]
    simp only [List.mem_append, List.mem_cons] at ht ⊢
    tauto
  constructor
  · exact fun t ht hphase => h.known t (hold t ht) hphase
  · exact fun t ht hlistens => h.silent t (hold t ht) hlistens
  · intro k hw
    have hle := h.enough k (hold _ hw)
    have hk := hidle k
    rw [hl, wakeUps_append, wakeUps_cons] at hle
    rw [wakeUps_append, idle]
    dsimp only
    omega
  · exact hkept

theorem Sound.mono (h : Sound owed s) (ho : ∀ k, owed k ≤ owed' k) : Sound owed' s :=
  ⟨h.known, h.silent, fun k hw => (h.enough k hw).trans (Nat.add_le_add_left (ho k) _), h.kept⟩

/-- What is owed when a waiter is dropped. -/
def dropOwes (w : Waiter) (key k : String) : ℕ := if w = .notified then owes key k else 0

theorem Sound.dropWaiter {w : Waiter} {passes : Bool} {woken : ℕ} (h : Sound (dropOwes w key) s)
    (ht : s.dropWaiter key w passes woken = some t) : Sound (fun _ => 0) t := by
  cases w with
  | waiting =>
    obtain rfl := Option.some.inj ht
    exact h
  | notified => exact Sound.notifyOne h ht
  | ready =>
    unfold StreamPool.dropWaiter at ht
    dsimp only at ht
    split_ifs at ht
    · exact Sound.notifyOne (h.mono fun _ => Nat.zero_le _) ht
    · obtain rfl := Option.some.inj ht
      exact h

/-! ## The connections -/

omit [DecidableEq τ] in
theorem idle_insert (l : List τ) (k : String) :
    ((s.connections.insert key l).lookup k).getD [] = if k = key then l else s.idle k := by
  rw [HashMap.lookup_insert_eq_ite]
  split_ifs <;> rfl

theorem Sound.kept_pop (h : Sound owed s) {stream : τ}
    (hlast : (s.idle key).getLast? = some stream) (k : String) (c : τ) :
    s.pushed.count (k, c) =
      (((s.connections.insert key (s.idle key).dropLast).lookup k).getD []).count c +
        ((key, stream) :: s.returned).count (k, c) := by
  have hsplit := List.dropLast_append_getLast? stream hlast
  have hcount : (s.idle key).count c = (s.idle key).dropLast.count c + [stream].count c := by
    rw [← List.count_append, hsplit]
  rw [h.kept, idle_insert, List.count_cons]
  by_cases hk : k = key
  · subst hk
    rw [if_pos rfl, hcount]
    by_cases hc : stream = c
    · subst hc
      simp
      omega
    · simp [hc]
  · have hne : key ≠ k := fun he => hk he.symm
    simp [hk, hne]

omit [DecidableEq τ] in
theorem length_pop {stream : τ} (hlast : (s.idle key).getLast? = some stream) :
    (s.idle key).dropLast.length + 1 = (s.idle key).length := by
  have hsplit := congrArg List.length (List.dropLast_append_getLast? stream hlast)
  rwa [List.length_append] at hsplit

/-! ## The steps -/

theorem Sound.pushInsert (h : Sound (fun _ => 0) s) (key : String) (stream : τ) :
    Sound (fun _ => 0) { s with
      connections := s.connections.insert key (s.idle key ++ [stream])
      pushes := s.pushes ++ [⟨key, false⟩]
      pushed := (key, stream) :: s.pushed } := by
  refine ⟨h.known, h.silent, ?_, ?_⟩
  · intro k hw
    have hle := h.enough k hw
    rw [idle, idle_insert, inFlight, List.countP_append, ← inFlight]
    by_cases hk : k = key
    · subst hk
      simp only [if_true, List.length_append, List.length_singleton, List.countP_singleton,
        beq_self_eq_true]
      omega
    · rw [if_neg hk]
      exact hle.trans (by dsimp only; omega)
  · intro k c
    change ((key, stream) :: s.pushed).count (k, c) =
      (((s.connections.insert key (s.idle key ++ [stream])).lookup k).getD []).count c +
        s.returned.count (k, c)
    rw [idle_insert, List.count_cons, h.kept k c]
    by_cases hk : k = key
    · subst hk
      by_cases hc : stream = c
      · subst hc
        simp
        omega
      · simp [hc]
    · have hne : key ≠ k := fun he => hk he.symm
      simp [hk, hne]

theorem Sound.erasePush (h : Sound (fun _ => 0) s) {p₁ p₂ : List Push} {p : Push}
    (hp : s.pushes = p₁ ++ p :: p₂) : Sound (owes p.key) { s with pushes := p₁ ++ p₂ } := by
  refine ⟨h.known, h.silent, ?_, h.kept⟩
  intro k hw
  have hle := h.enough k hw
  rw [hp, inFlight, List.countP_append, List.countP_cons] at hle
  refine hle.trans ?_
  rw [inFlight, List.countP_append, owes]
  by_cases hk : k = p.key
  · simp [hk]
    omega
  · have hne : p.key ≠ k := fun he => hk he.symm
    simp [hk, hne]

/-- Looking up the notifier: without one no take listens, so there is nobody to notify. -/
theorem Sound.pushFetch (h : Sound (fun _ => 0) s) {i : ℕ}
    (ht : next s (.pushFetch i) = some t) : Sound (fun _ => 0) t := by
  unfold next at ht
  dsimp only at ht
  split at ht
  · rename_i key hi
    obtain ⟨p₁, p₂, hp, hset, herase⟩ := List.split_of_getElem? hi
    split_ifs at ht with hkey
    · obtain rfl := Option.some.inj ht
      refine ⟨h.known, h.silent, ?_, h.kept⟩
      intro k hw
      have hle := h.enough k hw
      rw [hp, inFlight, List.countP_append, List.countP_cons] at hle
      refine hle.trans ?_
      rw [hset, inFlight, List.countP_append, List.countP_cons]
    · obtain rfl := Option.some.inj ht
      have hpaid := h.erasePush hp
      rw [herase]
      refine ⟨hpaid.known, hpaid.silent, ?_, hpaid.kept⟩
      intro k hw
      have hne : k ≠ key := by
        rintro rfl
        have hsilent := h.silent _ hw rfl
        exact hkey (HashMap.mem_of_lookup hsilent)
      have hle := hpaid.enough k hw
      rwa [owes, if_neg hne] at hle
  · cases ht

theorem Sound.pushNotify (h : Sound (fun _ => 0) s) {i woken : ℕ}
    (ht : next s (.pushNotify i woken) = some t) : Sound (fun _ => 0) t := by
  unfold next at ht
  dsimp only at ht
  split at ht
  · rename_i key hi
    obtain ⟨p₁, p₂, hp, _, herase⟩ := List.split_of_getElem? hi
    rw [herase] at ht
    exact Sound.notifyOne (h.erasePush hp) ht
  · cases ht

theorem Sound.takeStart (h : Sound (fun _ => 0) s) (key : String) :
    Sound (fun _ => 0) { s with takes := s.takes ++ [⟨key, .start false⟩] } := by
  have hold : ∀ t ∈ s.takes ++ [⟨key, .start false⟩], t = ⟨key, .start false⟩ ∨ t ∈ s.takes := by
    intro t ht
    rcases List.mem_append.mp ht with ht | ht
    · exact .inr ht
    · exact .inl (List.mem_singleton.mp ht)
  constructor
  · intro t ht hphase
    rcases hold t ht with rfl | ht
    · exact absurd rfl (hphase false)
    · exact h.known t ht hphase
  · intro t ht hlistens
    rcases hold t ht with rfl | ht
    · cases hlistens
    · exact h.silent t ht hlistens
  · intro k hw
    rcases hold _ hw with he | hw
    · cases he
    · have hle := h.enough k hw
      rw [wakeUps_append]
      exact hle.trans (by dsimp only; omega)
  · exact h.kept

theorem Sound.takeNotifier (h : Sound (fun _ => 0) s) {i : ℕ}
    (ht : next s (.takeNotifier i) = some t) : Sound (fun _ => 0) t := by
  unfold next at ht
  dsimp only at ht
  split at ht
  · rename_i key woken hi
    obtain ⟨l₁, l₂, hl, hset, _⟩ := List.split_of_getElem? hi
    obtain rfl := Option.some.inj ht
    rw [hset]
    have hmem : key ∈ if key ∈ s.notifiers then s.notifiers else s.notifiers.insert key false := by
      split_ifs with hkey
      · exact hkey
      · exact (AList.mem_insert _).mpr (.inl rfl)
    have hnotifiers : Sound (fun _ => 0) { s with
        notifiers := if key ∈ s.notifiers then s.notifiers else s.notifiers.insert key false } := by
      apply h.setNotifiers
      · intro k hk
        split_ifs
        · exact hk
        · exact (AList.mem_insert _).mpr (.inr hk)
      · intro t ht hlistens
        have hsilent := h.silent t ht hlistens
        split_ifs with hkey
        · exact hsilent
        · rw [HashMap.lookup_insert_eq_ite, hsilent, if_neg]
          rintro rfl
          exact hkey (HashMap.mem_of_lookup hsilent)
    exact hnotifiers.setTake hl rfl hmem (fun hc => by cases hc) (fun hc => by cases hc)
      (.inl le_rfl) fun _ _ => le_rfl
  · cases ht

theorem Sound.takeEnable (h : Sound (fun _ => 0) s) {i : ℕ}
    (ht : next s (.takeEnable i) = some t) : Sound (fun _ => 0) t := by
  unfold next at ht
  dsimp only at ht
  split at ht
  · rename_i key woken hi
    obtain ⟨l₁, l₂, hl, hset, _⟩ := List.split_of_getElem? hi
    have hknown : key ∈ s.notifiers := h.known ⟨key, .notifier woken⟩ (by rw [hl]; simp) (by simp)
    split_ifs at ht with hpermit
    · obtain rfl := Option.some.inj ht
      rw [hset]
      have hnotifiers : Sound (fun _ => 0) { s with
          notifiers := s.notifiers.insert key false } := by
        apply h.setNotifiers
        · exact fun k hk => (AList.mem_insert _).mpr (.inr hk)
        · intro t ht hlistens
          rw [HashMap.lookup_insert_eq_ite, h.silent t ht hlistens, ite_self]
      exact hnotifiers.setTake hl rfl ((AList.mem_insert _).mpr (.inl rfl)) (fun hc => by cases hc)
        (fun hc => by cases hc) (.inl le_rfl) fun _ _ => le_rfl
    · obtain rfl := Option.some.inj ht
      rw [hset]
      have hfalse : s.notifiers.lookup key = some false := by
        obtain ⟨b, hb⟩ := HashMap.exists_lookup hknown
        cases b with
        | false => exact hb
        | true => exact absurd hb hpermit
      exact h.setTake hl rfl hknown (fun _ => hfalse) (fun hc => by cases hc) (.inl le_rfl)
        fun _ _ => le_rfl
  · cases ht

theorem Sound.takeCheck (h : Sound (fun _ => 0) s) {i woken : ℕ} {passes : Bool}
    (ht : next s (.takeCheck i passes woken) = some t) : Sound (fun _ => 0) t := by
  unfold next at ht
  dsimp only at ht
  split at ht
  · rename_i key w woken' hi
    obtain ⟨l₁, l₂, hl, hset, herase⟩ := List.split_of_getElem? hi
    have hmem : (⟨key, .enabled w woken'⟩ : Take) ∈ s.takes := by
      rw [hl]
      simp
    cases hlast : (s.idle key).getLast? with
    | some stream =>
      rw [hlast] at ht
      dsimp only at ht
      rw [herase] at ht
      apply Sound.dropWaiter _ ht
      apply h.eraseTake hl
      · intro k
        have hlen := length_pop hlast
        rw [idle_insert]
        by_cases hk : k = key
        · subst hk
          simp only [if_true, dropOwes, owes, Take.weight]
          cases woken' <;> split_ifs <;> simp <;> omega
        · have hne : key ≠ k := fun he => hk he.symm
          simp [hk, hne]
      · exact h.kept_pop hlast
    | none =>
      rw [hlast] at ht
      obtain rfl := Option.some.inj ht
      rw [hset]
      have hempty : s.idle key = [] := List.getLast?_eq_none_iff.mp hlast
      refine h.setTake hl rfl (h.known _ hmem (by simp)) (fun hc => ?_) (fun _ => .inr hempty)
        (.inr hempty) fun _ _ => le_rfl
      refine h.silent _ hmem ?_
      cases w <;> simp_all [Take.listens]
  · cases ht

theorem Sound.takeWake (h : Sound (fun _ => 0) s) {i : ℕ}
    (ht : next s (.takeWake i) = some t) : Sound (fun _ => 0) t := by
  unfold next at ht
  dsimp only at ht
  split at ht
  · rename_i key w hi
    obtain ⟨l₁, l₂, hl, hset, _⟩ := List.split_of_getElem? hi
    split_ifs at ht
    obtain rfl := Option.some.inj ht
    rw [hset]
    have hknown := h.known ⟨key, .parked w⟩ (by rw [hl]; simp) (by simp)
    refine h.setTake hl rfl hknown (fun hc => by cases hc) (fun hc => by cases hc) (.inl ?_)
      fun _ _ => le_rfl
    simp only [Take.weight, Bool.toNat_true]
    split_ifs <;> omega
  · cases ht

theorem Sound.takeTimeout (h : Sound (fun _ => 0) s) {i woken : ℕ} {passes : Bool}
    (ht : next s (.takeTimeout i passes woken) = some t) : Sound (fun _ => 0) t := by
  unfold next at ht
  dsimp only at ht
  split at ht
  · rename_i key w hi
    obtain ⟨l₁, l₂, hl, _, herase⟩ := List.split_of_getElem? hi
    rw [herase] at ht
    apply Sound.dropWaiter _ ht
    apply h.eraseTake hl
    · intro k
      simp only [dropOwes, owes, Take.weight, eq_comm (a := k), idle]
      split_ifs <;> omega
    · exact h.kept
  · cases ht

theorem Sound.tryTake (h : Sound (fun _ => 0) s) (key : String)
    (ht : next s (.tryTake key) = some t) : Sound (fun _ => 0) t := by
  unfold next at ht
  dsimp only at ht
  split at ht
  · rename_i stream hlast
    obtain rfl := Option.some.inj ht
    refine ⟨h.known, h.silent, ?_, h.kept_pop hlast⟩
    intro k hw
    have hle := h.enough k hw
    have hlen := length_pop hlast
    change (((s.connections.insert key (s.idle key).dropLast).lookup k).getD []).length ≤ _
    rw [idle_insert]
    split_ifs with hk
    · subst hk
      exact (Nat.le_of_lt (by omega)).trans hle
    · exact hle
  · obtain rfl := Option.some.inj ht
    exact h

theorem Sound.step {a : PoolAct τ} (h : Sound (fun _ => 0) s) (ht : next s a = some t) :
    Sound (fun _ => 0) t := by
  cases a with
  | pushInsert key stream =>
    obtain rfl := Option.some.inj ht
    exact h.pushInsert key stream
  | pushFetch i => exact h.pushFetch ht
  | pushNotify i woken => exact h.pushNotify ht
  | takeStart key =>
    obtain rfl := Option.some.inj ht
    exact h.takeStart key
  | takeNotifier i => exact h.takeNotifier ht
  | takeEnable i => exact h.takeEnable ht
  | takeCheck i passes woken => exact h.takeCheck ht
  | takeWake i => exact h.takeWake ht
  | takeTimeout i passes woken => exact h.takeTimeout ht
  | tryTake key => exact h.tryTake key ht

theorem sound_of_reachable (h : (system τ).Reachable s) : Sound (fun _ => 0) s := by
  refine h.invariant (I := Sound fun _ => 0) ?_ fun _ _ _ hs ht => hs.step ht
  rintro s rfl
  exact sound_new

omit [DecidableEq τ] in
theorem wakeUp_of_weight (h : 0 < x.weight) : x.phase.WakeUp := by
  obtain ⟨key, phase⟩ := x
  rcases phase with ⟨_ | _⟩ | ⟨_ | _⟩ | ⟨_ | _ | _, _ | _⟩ | ⟨_ | _ | _⟩ <;>
    simp_all [Take.weight, TakePhase.WakeUp]

/-- In every interleaving each pushed connection is idle under its key or has been returned once
under it, and a take is not left parked beside an idle connection: a push is about to notify or a
wake-up is pending. -/
theorem handed_over_without_loss (h : (system τ).Reachable s) :
    (∀ key stream, s.pushed.count (key, stream) =
      (s.idle key).count stream + s.returned.count (key, stream)) ∧
    (s.pushed.Nodup → ∀ key stream, (key, stream) ∈ s.pushed →
      (stream ∈ s.idle key ∧ (key, stream) ∉ s.returned) ∨
        (stream ∉ s.idle key ∧ s.returned.count (key, stream) = 1)) ∧
    ∀ key, ¬(s.Parked key ∧ s.idle key ≠ [] ∧ ¬s.Pushing key ∧ ¬s.WakeUpPending key) := by
  have hs := sound_of_reachable h
  refine ⟨hs.kept, ?_, ?_⟩
  · intro hnodup key stream hmem
    have hone := hs.kept key stream
    rw [List.count_eq_one_of_mem hnodup hmem] at hone
    rcases Nat.eq_zero_or_pos (s.returned.count (key, stream)) with hzero | hpos
    · left
      exact ⟨List.count_pos_iff.mp (by omega), List.count_eq_zero.mp hzero⟩
    · right
      exact ⟨List.count_eq_zero.mp (by omega), by omega⟩
  · rintro key ⟨⟨w, hw⟩, hidle, hpush, hwake⟩
    by_cases hwaiting : w = .waiting
    · subst hwaiting
      have hle := hs.enough key hw
      have hflight : inFlight s.pushes key = 0 := by
        rw [inFlight, List.countP_eq_zero]
        intro p hp hk
        exact hpush ⟨p, hp, by simpa using hk⟩
      have hpos := List.length_pos_of_ne_nil hidle
      obtain ⟨x, hx, hk, hweight⟩ := exists_of_wakeUps_pos (by omega : 0 < wakeUps s.takes key)
      exact hwake (.inr ⟨x, hx, hk, wakeUp_of_weight hweight⟩)
    · exact hwake (.inr ⟨_, hw, rfl, hwaiting⟩)

def wokenTake : StreamPool ℕ :=
  Transition.run next new [.takeStart "n1", .takeNotifier 0, .takeEnable 0, .takeCheck 0 false 0,
    .pushInsert "n1" 7, .pushFetch 0, .pushNotify 0 0]

theorem handed_over_without_loss_wokenTake :
    (system ℕ).Reachable wokenTake ∧ wokenTake.Parked "n1" ∧ wokenTake.idle "n1" = [7] ∧
      wokenTake.returned.count ("n1", 7) = 0 ∧ wokenTake.WakeUpPending "n1" := by
  have hr : (system ℕ).Reachable wokenTake := ⟨_, rfl, Transition.reaches_run rfl⟩
  obtain ⟨hcount, _, hparked⟩ := handed_over_without_loss hr
  have hpark : wokenTake.Parked "n1" := ⟨.notified, by decide⟩
  have hidle : wokenTake.idle "n1" = [7] := by decide
  have hpush : ¬wokenTake.Pushing "n1" := by
    unfold Pushing
    decide
  have hpushed : wokenTake.pushed.count ("n1", 7) = 1 := by decide
  refine ⟨hr, hpark, hidle, ?_, ?_⟩
  · have hone := hcount "n1" 7
    rw [hpushed, hidle] at hone
    simpa using hone
  · by_contra hwake
    exact hparked "n1" ⟨hpark, by simp [hidle], hpush, hwake⟩

end StreamPool

end Stouter
