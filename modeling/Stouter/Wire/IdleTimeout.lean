import Mathlib.Algebra.Order.Group.Nat
import Mathlib.Order.MinMax
import Stouter.Wire.Proxy

/-! # The idle timeout

`proxy_bidirectional` with its clock: both copies mark the `Activity` of the
connection whenever bytes have moved, and `idle_for` sleeps until the latest
mark is old enough. The three futures share one task, so a mark and a look at
it never overlap. Times are nanoseconds since the connection began, and the
mark is kept in milliseconds.
-/

namespace Stouter

open Streams

variable {α : Type*}

/-- Close the tunnel if no data flows in either direction for this long (300 s). -/
def idleTimeout : ℕ := 300000000000

def nanosPerMilli : ℕ := 1000000

/-- `u64::try_from(elapsed.as_millis()).unwrap_or(u64::MAX)`. -/
def elapsedMs (now : ℕ) : ℕ := min (now / nanosPerMilli) (2 ^ 64 - 1)

/-- The copy calls `touch` in this step: a read or a write has returned more than nothing. -/
def Copy.touches (c c' : Copy α) : Bool :=
  match c.phase, c'.phase with
  | .reading, .writing => true
  | .writing, .writing => true
  | .writing, .flushing => true
  | _, _ => false

def Copy.Transfers (c c' : Copy α) : Prop :=
  c'.reader.bytes ≠ c.reader.bytes ∨ c'.writer.written ≠ c.writer.written

instance [DecidableEq α] (c c' : Copy α) : Decidable (c.Transfers c') :=
  inferInstanceAs (Decidable (_ ∨ _))

/-- A proxied connection with its clock. `wakeAt` is the deadline `idle_for` sleeps until, once it
has been polled; `movedAt` is when a byte was last read or written. -/
structure TimedProxy (α : Type*) where
  proxy : Proxy α
  now : ℕ
  lastMs : ℕ
  wakeAt : Option ℕ
  movedAt : ℕ

inductive TimedProxyAct
  | pass (nanos : ℕ)
  | up
  | down
  | idle
  deriving DecidableEq, Repr

namespace TimedProxy

variable [DecidableEq α]

def start (ar : Reader α) (aw : Writer α) (br : Reader α) (bw : Writer α) : TimedProxy α :=
  ⟨.start ar aw br bw, 0, 0, none, 0⟩

/-- A copy has gone on, `touch` included. -/
def mark (s : TimedProxy α) (p : Proxy α) (c c' : Copy α) : TimedProxy α :=
  { s with
    proxy := p
    lastMs := if c.touches c' then max s.lastMs (elapsedMs s.now) else s.lastMs
    movedAt := if c.Transfers c' then s.now else s.movedAt }

/-- When `idle_for` returns, if nothing moves before. -/
def deadline (s : TimedProxy α) : ℕ := s.lastMs * nanosPerMilli + idleTimeout

/-- The sleep of `idle_for` is over, or has not begun. -/
def due (s : TimedProxy α) : Bool :=
  match s.wakeAt with
  | none => true
  | some t => t ≤ s.now

def next (s : TimedProxy α) : TimedProxyAct → Option (TimedProxy α)
  | .pass nanos => some { s with now := s.now + nanos }
  | .up => (s.proxy.next .up).map fun p => s.mark p s.proxy.up p.up
  | .down => (s.proxy.next .down).map fun p => s.mark p s.proxy.down p.down
  | .idle =>
    if s.proxy.ended || !s.due then none
    else if s.deadline ≤ s.now then
      (s.proxy.next .idle).map fun p => { s with proxy := p }
    else some { s with wakeAt := some s.deadline }

def runs (s : TimedProxy α) : Transition (TimedProxy α) TimedProxyAct := .ofNext (· = s) next

end TimedProxy

/-! ## Touching and moving -/

variable {c c' : Copy α}

/-- A copy touches the activity exactly when it has moved a byte. -/
theorem Copy.touches_iff (h : c.copyThenShutdown = some c') :
    c.touches c' = true ↔ c.Transfers c' := by
  cases Copy.moves_of_copyThenShutdown h with
  | fail hw => cases hp : c.phase <;> simp [touches, Transfers, hp, hw]
  | @ended r hp hr =>
    obtain ⟨hsplit, hnil⟩ := Reader.read_spec (by decide) hr
    have hr' : r.bytes = c.reader.bytes := by rw [hsplit, List.nil_append]
    simp [touches, Transfers, hp, hr']
  | @read buf r hp hr hne =>
    obtain ⟨hsplit, -⟩ := Reader.read_spec (by decide) hr
    have hbytes : r.bytes ≠ c.reader.bytes := by
      intro heq
      rw [hsplit] at heq
      have hlen := congrArg List.length heq
      rw [List.length_append] at hlen
      exact hne (List.length_eq_zero_iff.mp (by omega))
    simp [touches, Transfers, hp, hbytes]
  | @write n w hp hn hle hw =>
    have hwritten : w.written ≠ c.writer.written := by
      intro heq
      have hlen := congrArg List.length (hw.symm.trans heq)
      rw [List.length_append, List.length_take] at hlen
      omega
    have htouches : c.touches { c with
        writer := w, chunk := c.chunk.drop n
        phase := if (c.chunk.drop n).isEmpty then .flushing else .writing } = true := by
      unfold touches
      rw [hp]
      dsimp only
      split_ifs <;> rfl
    simp only [htouches, true_iff]
    exact .inr hwritten
  | flush hp hw => simp [touches, Transfers, hp, hw]
  | close hp hw => simp [touches, Transfers, hp, hw]

/-! ## Runs -/

theorem elapsedMs_mono {a b : ℕ} (h : a ≤ b) : elapsedMs a ≤ elapsedMs b :=
  min_le_min (Nat.div_le_div_right h) le_rfl

theorem elapsedMs_le (now : ℕ) : elapsedMs now * nanosPerMilli ≤ now :=
  (Nat.mul_le_mul_right _ (min_le_left _ _)).trans (Nat.div_mul_le_self _ _)

theorem lt_elapsedMs {now : ℕ} (h : now < 2 ^ 64 * nanosPerMilli) :
    now < elapsedMs now * nanosPerMilli + nanosPerMilli := by
  have hfits : now / nanosPerMilli ≤ 2 ^ 64 - 1 := by
    have hlt : now / nanosPerMilli < 2 ^ 64 := Nat.div_lt_of_lt_mul (by rwa [Nat.mul_comm])
    omega
  rw [elapsedMs, min_eq_left hfits]
  have hmod := Nat.mod_lt now (show 0 < nanosPerMilli by decide)
  have hdiv := Nat.div_add_mod' now nanosPerMilli
  omega

namespace TimedProxy

variable [DecidableEq α] {s t s₀ : TimedProxy α} {a : TimedProxyAct}

/-- The mark is the time of the last transfer, and `idle_for` never sleeps past its deadline. -/
structure Sound (s : TimedProxy α) : Prop where
  marked : s.lastMs = elapsedMs s.movedAt
  past : s.movedAt ≤ s.now
  wakes : ∀ wake, s.wakeAt = some wake → wake ≤ s.deadline

theorem Sound.copied (h : Sound s) {p : Proxy α} {c c' : Copy α}
    (hc : c.copyThenShutdown = some c') : Sound (s.mark p c c') := by
  have hiff := Copy.touches_iff hc
  have hle : s.lastMs ≤ elapsedMs s.now := by
    rw [h.marked]
    exact elapsedMs_mono h.past
  by_cases ht : c.Transfers c'
  · have htouch := hiff.mpr ht
    refine ⟨?_, ?_, ?_⟩
    · simp only [mark, ht, htouch, if_true]
      exact max_eq_right hle
    · simp only [mark, ht, if_true]
      exact le_rfl
    · intro wake hat
      have hlast : s.lastMs ≤ (s.mark p c c').lastMs := by
        simp only [mark, htouch, if_true]
        exact le_max_left _ _
      exact (h.wakes wake hat).trans (Nat.add_le_add_right (Nat.mul_le_mul_right _ hlast) _)
  · have htouch : ¬c.touches c' = true := fun he => ht (hiff.mp he)
    refine ⟨?_, ?_, ?_⟩
    · simp only [mark, ht, htouch, if_false]
      exact h.marked
    · simp only [mark, ht, if_false]
      exact h.past
    · intro wake hat
      have hdeadline : (s.mark p c c').deadline = s.deadline := by
        simp [deadline, mark, htouch]
      rw [hdeadline]
      exact h.wakes wake hat

theorem next_up (h : s.next .up = some t) : ∃ c, s.proxy.up.copyThenShutdown = some c ∧
    s.proxy.next .up = some t.proxy ∧ t = s.mark t.proxy s.proxy.up c := by
  obtain ⟨p, hp, rfl⟩ := Option.map_eq_some_iff.mp h
  have hup := hp
  unfold Proxy.next at hup
  split_ifs at hup
  obtain ⟨c, hc, rfl⟩ := Option.map_eq_some_iff.mp hup
  exact ⟨c, hc, hp, rfl⟩

theorem next_down (h : s.next .down = some t) : ∃ c, s.proxy.down.copyThenShutdown = some c ∧
    s.proxy.next .down = some t.proxy ∧ t = s.mark t.proxy s.proxy.down c := by
  obtain ⟨p, hp, rfl⟩ := Option.map_eq_some_iff.mp h
  have hdown := hp
  unfold Proxy.next at hdown
  split_ifs at hdown
  obtain ⟨c, hc, rfl⟩ := Option.map_eq_some_iff.mp hdown
  exact ⟨c, hc, hp, rfl⟩

/-- A poll of `idle_for` ends the proxy at its deadline, and otherwise goes to sleep until it. -/
theorem next_idle (h : s.next .idle = some t) :
    s.proxy.ended = false ∧
      (s.deadline ≤ s.now ∧ s.proxy.next .idle = some t.proxy ∧ t = { s with proxy := t.proxy } ∨
        s.now < s.deadline ∧ t = { s with wakeAt := some s.deadline }) := by
  simp only [next] at h
  split_ifs at h with hend hdue
  · obtain ⟨p, hp, rfl⟩ := Option.map_eq_some_iff.mp h
    exact ⟨by simp_all, .inl ⟨hdue, hp, rfl⟩⟩
  · cases h
    exact ⟨by simp_all, .inr ⟨by omega, rfl⟩⟩

theorem Sound.step (hs : Sound s) (h : s.next a = some t) : Sound t := by
  cases a with
  | pass nanos =>
    cases h
    exact ⟨hs.marked, hs.past.trans (Nat.le_add_right _ _), hs.wakes⟩
  | up =>
    obtain ⟨c, hc, -, ht⟩ := next_up h
    rw [ht]
    exact hs.copied hc
  | down =>
    obtain ⟨c, hc, -, ht⟩ := next_down h
    rw [ht]
    exact hs.copied hc
  | idle =>
    obtain ⟨-, ⟨-, -, ht⟩ | ⟨-, rfl⟩⟩ := next_idle h
    · rw [ht]
      exact ⟨hs.marked, hs.past, hs.wakes⟩
    · refine ⟨hs.marked, hs.past, ?_⟩
      rintro wake ⟨⟩
      exact le_rfl

theorem reaches_proxy {p₀ : Proxy α} (h : (runs s₀).Reaches s t) :
    (Proxy.runs p₀).Reaches s.proxy t.proxy := by
  induction h with
  | refl => exact .refl _
  | tail _ hstep ih =>
    obtain ⟨a, ha⟩ := hstep
    cases a with
    | pass nanos =>
      cases ha
      exact ih
    | up =>
      obtain ⟨c, -, hp, -⟩ := next_up ha
      exact ih.snoc (a := .up) hp
    | down =>
      obtain ⟨c, -, hp, -⟩ := next_down ha
      exact ih.snoc (a := .down) hp
    | idle =>
      obtain ⟨-, ⟨-, hp, -⟩ | ⟨-, rfl⟩⟩ := next_idle ha
      · exact ih.snoc (a := .idle) hp
      · exact ih

variable {ar br : Reader α} {aw bw : Writer α}

theorem sound_of_reachable (h : (runs (start ar aw br bw)).Reachable s) : Sound s := by
  refine h.invariant (I := Sound) ?_ fun _ _ _ hs h => hs.step h
  rintro s rfl
  exact ⟨by simp [start, elapsedMs], le_rfl, by rintro wake ⟨⟩⟩

/-- A timed proxy makes only steps of the proxy; its timeout ends it only when no byte has been
read or written in either direction for the timeout, up to the millisecond of the mark; and a
proxy in which none has for the timeout is ended by the next poll of its timer. -/
theorem idle_timeout_exact (h : (runs (start ar aw br bw)).Reachable s) :
    (Proxy.runs (Proxy.start ar aw br bw)).Reachable s.proxy ∧
    (∀ t, s.next .idle = some t → t.proxy.ended = true → s.now < 2 ^ 64 * nanosPerMilli →
      s.movedAt + idleTimeout < s.now + nanosPerMilli) ∧
    (s.proxy.ended = false → s.movedAt + idleTimeout ≤ s.now →
      ∃ t, s.next .idle = some t ∧ t.proxy.ended = true) := by
  have hs := sound_of_reachable h
  refine ⟨?_, ?_, ?_⟩
  · obtain ⟨s₀, rfl, hreach⟩ := h
    exact ⟨_, rfl, reaches_proxy hreach⟩
  · intro t ht hend hfits
    obtain ⟨hopen, ⟨hdue, -, -⟩ | ⟨-, rfl⟩⟩ := next_idle ht
    · have hmark := lt_elapsedMs (hs.past.trans_lt hfits)
      rw [deadline, hs.marked] at hdue
      omega
    · rw [show ({ s with wakeAt := some s.deadline } : TimedProxy α).proxy.ended = s.proxy.ended
        from rfl, hopen] at hend
      cases hend
  · intro hopen hidle
    have hdeadline : s.deadline ≤ s.now := by
      have hle := elapsedMs_le s.movedAt
      rw [deadline, hs.marked]
      omega
    have hdue : s.due = true := by
      unfold due
      split
      · rfl
      · next wake hat => exact decide_eq_true ((hs.wakes wake hat).trans hdeadline)
    refine ⟨{ s with proxy := { s.proxy with ended := true } }, ?_, rfl⟩
    simp [next, hopen, hdue, hdeadline, Proxy.next]

/-- A byte is read at once and written ten seconds later; then nothing moves for five minutes. -/
def lastByte : TimedProxy UInt8 :=
  Transition.run next (start (.ofList [104]) ⟨[], []⟩ (.ofList [105]) ⟨[], [.took 1]⟩)
    [.up, .idle, .pass 10000000000, .up, .pass 290000000000, .idle, .pass 10000000000]

theorem idle_timeout_exact_lastByte :
    lastByte.movedAt = 10000000000 ∧ lastByte.now = 310000000000 ∧
      ∃ t, lastByte.next .idle = some t ∧ t.proxy.ended = true := by
  have hr : (runs (start (.ofList [104]) ⟨[], []⟩ (.ofList [105]) ⟨[], [.took 1]⟩)).Reachable
      lastByte := ⟨_, rfl, Transition.reaches_run (by decide)⟩
  obtain ⟨-, -, hends⟩ := idle_timeout_exact hr
  exact ⟨by decide, by decide, hends (by decide) (by decide)⟩

end TimedProxy

end Stouter
