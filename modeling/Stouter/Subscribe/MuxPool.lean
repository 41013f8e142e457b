import Stouter.Gossip.Membership
import Stouter.Transition.Basic

/-! # The pool of multiplexed sessions

`MuxPool` and the tasks that share it: calls of `open_stream`, which look a
handle up, ask the session and on an error remove the entry of the address;
the maintainer, which collects addresses without a session and inserts one
for each; and the driver of every session. A session ends with its last
handle, so an entry that is removed or replaced takes its tunnels with it.
-/

namespace Stouter

/-- `node.relay.as_deref().unwrap_or(&node.addr)`. -/
def NodeInfo.connectAddr (node : NodeInfo) : String := node.relay.getD node.addr

/-- A yamux session and the task that drives it. -/
structure MuxSession where
  /-- Its connection has failed. -/
  failed : Bool
  /-- Its driver has not returned. -/
  running : Bool
  /-- The request the driver works on. -/
  pending : Option ℕ
  /-- The requests in the channel. -/
  queue : List ℕ
  /-- The calls whose tunnels run on it. -/
  streams : List ℕ
  deriving DecidableEq, Repr

inductive MuxCallPhase
  /-- Before `tx.send`. -/
  | sending
  /-- Waiting for the response of the driver. -/
  | waiting
  | answered (ok : Bool)
  deriving DecidableEq, Repr

/-- A call of `MuxPool::open_stream` that has its handle. -/
structure MuxCall where
  addr : String
  session : ℕ
  phase : MuxCallPhase
  deriving DecidableEq, Repr

/-- Where `maintain_mux_sessions` is in its pass: the addresses it still has to look up and those
it has collected. -/
structure MuxPass where
  unchecked : List String
  addrs : List String
  deriving DecidableEq, Repr

structure Mux where
  pool : HashMap String ℕ
  sessions : HashMap ℕ MuxSession
  nextSession : ℕ
  calls : HashMap ℕ MuxCall
  nextCall : ℕ
  pass : MuxPass

/-- The answer of `poll_new_outbound`. -/
inductive Outbound
  | pending
  | opened
  | refused
  deriving DecidableEq, Repr

inductive MuxAct
  | startPass (nodes : List NodeInfo)
  | check
  | establish (ok : Bool)
  | lookup (addr : String)
  | send (call : ℕ)
  | hangUp (call : ℕ)
  | resume (call : ℕ)
  | cancel (call : ℕ)
  | poll (session : ℕ) (out : Outbound) (alive : Bool)
  | fail (session : ℕ)

namespace Mux

/-- Capacity of the request channel. -/
def channelSize : ℕ := 64

/-- Some handle of the session is left, in the pool or in a call. -/
def held (s : Mux) (h : ℕ) : Bool :=
  (HashMap.values s.pool).contains h || (HashMap.values s.calls).any (·.session == h)

def awaits (s : Mux) (h c : ℕ) : Bool :=
  (s.calls.lookup c).any fun call => call.session == h && call.phase == .waiting

def setPhase (phase : MuxCallPhase) (call : MuxCall) : MuxCall := { call with phase := phase }

/-- The driver returns: its connection and every stream on it end. -/
def ended (sess : MuxSession) : MuxSession :=
  { sess with running := false, pending := none, queue := [], streams := [] }

/-- The driver's work on the pending request. -/
def answerPending (s : Mux) (h : ℕ) (sess : MuxSession) (out : Outbound) : Mux × MuxSession :=
  match sess.pending with
  | none => (s, sess)
  | some c =>
    if !s.awaits h c then
      (s, { sess with pending := none })
    else
      match out with
      | .pending => (s, sess)
      | .opened =>
        ({ s with calls := HashMap.modify c (setPhase (.answered true)) s.calls },
          { sess with pending := none, streams := c :: sess.streams })
      -- yamux closes the connection on an error.
      | .refused =>
        ({ s with calls := HashMap.modify c (setPhase (.answered false)) s.calls },
          { sess with pending := none, failed := true })

/-- Take the next request, `none` when the channel is closed and empty. -/
def receive (s : Mux) (h : ℕ) (sess : MuxSession) : Option MuxSession :=
  match sess.pending, sess.queue with
  | some _, _ => some sess
  | none, c :: queue => some { sess with pending := some c, queue := queue }
  | none, [] => if s.held h then some sess else none

/-- One poll of `drive_client_connection`. -/
def poll (s : Mux) (h : ℕ) (sess : MuxSession) (out : Outbound) (alive : Bool) : Mux :=
  let (s, sess) := s.answerPending h sess out
  let sess :=
    match s.receive h sess with
    | none => ended sess
    | some sess => if alive then sess else ended { sess with failed := true }
  { s with sessions := s.sessions.insert h sess }

/-- `MuxPool::insert` of a new session, with its driver just spawned. -/
def insert (s : Mux) (addr : String) : Mux :=
  { s with
    pool := s.pool.insert addr s.nextSession
    sessions := s.sessions.insert s.nextSession ⟨false, true, none, [], []⟩
    nextSession := s.nextSession + 1 }

def next (s : Mux) : MuxAct → Option Mux
  | .startPass nodes =>
    match s.pass with
    | ⟨[], []⟩ => some { s with pass := ⟨nodes.map (·.connectAddr), []⟩ }
    | _ => none
  | .check =>
    match s.pass with
    | ⟨addr :: unchecked, addrs⟩ =>
      if addr.isEmpty || (s.pool.lookup addr).isSome then
        some { s with pass := ⟨unchecked, addrs⟩ }
      else
        some { s with pass := ⟨unchecked, addrs ++ [addr]⟩ }
    | _ => none
  | .establish ok =>
    match s.pass with
    | ⟨[], addr :: addrs⟩ =>
      let s := { s with pass := ⟨[], addrs⟩ }
      some (if ok then s.insert addr else s)
    | _ => none
  | .lookup addr =>
    (s.pool.lookup addr).map fun h =>
      { s with calls := s.calls.insert s.nextCall ⟨addr, h, .sending⟩, nextCall := s.nextCall + 1 }
  | .send c => do
    let call ← s.calls.lookup c
    let sess ← s.sessions.lookup call.session
    if call.phase ≠ .sending then
      none
    else if !sess.running then
      some { s with calls := HashMap.modify c (setPhase (.answered false)) s.calls }
    else if sess.queue.length < channelSize then
      some { s with
        calls := HashMap.modify c (setPhase .waiting) s.calls
        sessions := s.sessions.insert call.session { sess with queue := sess.queue ++ [c] } }
    else
      none
  | .hangUp c => do
    let call ← s.calls.lookup c
    let sess ← s.sessions.lookup call.session
    if call.phase = .waiting ∧ sess.running = false then
      some { s with calls := HashMap.modify c (setPhase (.answered false)) s.calls }
    else
      none
  | .resume c => do
    let call ← s.calls.lookup c
    match call.phase with
    | .answered true => some { s with calls := s.calls.erase c }
    | .answered false => some { s with pool := s.pool.erase call.addr, calls := s.calls.erase c }
    | _ => none
  | .cancel c => do
    let _ ← s.calls.lookup c
    some { s with calls := s.calls.erase c }
  | .poll h out alive => do
    let sess ← s.sessions.lookup h
    if sess.running then some (s.poll h sess out alive) else none
  | .fail h => do
    let sess ← s.sessions.lookup h
    some { s with sessions := s.sessions.insert h { sess with failed := true } }

def init : Mux := ⟨∅, ∅, 0, ∅, 0, ⟨[], []⟩⟩

def system : Transition Mux MuxAct := .ofNext (· = init) next

/-- The steps in which no race is lost: a pass does not collect an address twice, and a call whose
request failed still finds the session it asked, or none, under its address. -/
def careful (s : Mux) : MuxAct → Bool
  | .check => (s.pass.unchecked.head?).all fun addr => !s.pass.addrs.contains addr
  | .resume c => (s.calls.lookup c).all fun call =>
      call.phase != .answered false || (s.pool.lookup call.addr).all (· == call.session)
  | _ => true

def carefulSystem : Transition Mux MuxAct := system.restrict fun s a _ => s.careful a = true

def Failed (s : Mux) (h : ℕ) : Prop := ∃ sess, s.sessions.lookup h = some sess ∧ sess.failed = true

variable {s t : Mux} {a : MuxAct} {h c : ℕ} {sess : MuxSession} {call : MuxCall} {addr : String}

theorem held_iff : s.held h = true ↔
    (∃ addr, s.pool.lookup addr = some h) ∨
      ∃ c call, s.calls.lookup c = some call ∧ call.session = h := by
  simp only [held, Bool.or_eq_true, List.contains_iff_mem, List.any_eq_true, beq_iff_eq,
    HashMap.mem_values]
  constructor
  · rintro (hp | ⟨call, ⟨c, hc⟩, hh⟩)
    · exact .inl hp
    · exact .inr ⟨c, call, hc, hh⟩
  · rintro (hp | ⟨c, call, hc, hh⟩)
    · exact .inl hp
    · exact .inr ⟨call, ⟨c, hc⟩, hh⟩

theorem held_modify (s : Mux) (c h : ℕ) (phase : MuxCallPhase) :
    { s with calls := HashMap.modify c (setPhase phase) s.calls }.held h = s.held h := by
  rw [Bool.eq_iff_iff, held_iff, held_iff]
  apply or_congr_right
  constructor
  · rintro ⟨c', call, hc, hh⟩
    rw [HashMap.lookup_modify] at hc
    split_ifs at hc
    · obtain ⟨call', hc', rfl⟩ := Option.map_eq_some_iff.mp hc
      exact ⟨c, call', hc', hh⟩
    · exact ⟨c', call, hc, hh⟩
  · rintro ⟨c', call, hc, hh⟩
    by_cases he : c' = c
    · subst he
      exact ⟨c', setPhase phase call, by simp [HashMap.lookup_modify, hc], hh⟩
    · exact ⟨c', call, by simp [HashMap.lookup_modify, he, hc], hh⟩

/-- What `poll` does to the shared state: it changes one session and the phases of calls. -/
structure Drives (s t : Mux) (h : ℕ) (sess sess' : MuxSession) : Prop where
  pool : t.pool = s.pool
  pass : t.pass = s.pass
  nextSession : t.nextSession = s.nextSession
  sessions : t.sessions = s.sessions.insert h sess'
  held : ∀ h', t.held h' = s.held h'
  failed : sess.failed = true → sess'.failed = true
  running : sess'.running = false → sess'.failed = true ∨ s.held h = false
  calls : ∀ c call', t.calls.lookup c = some call' → call'.phase = .answered false →
    s.calls.lookup c = some call' ∨ call'.session = h ∧ sess'.failed = true

theorem awaits_iff : s.awaits h c = true ↔
    ∃ call, s.calls.lookup c = some call ∧ call.session = h ∧ call.phase = .waiting := by
  simp [awaits, Option.any_eq_true]

theorem lookup_setPhase {call' : MuxCall} {c' : ℕ} {phase : MuxCallPhase}
    (hc : AList.lookup c' (HashMap.modify c (setPhase phase) s.calls) = some call') :
    s.calls.lookup c' = some call' ∨
      ∃ call, c' = c ∧ s.calls.lookup c = some call ∧ call' = setPhase phase call := by
  rw [HashMap.lookup_modify] at hc
  split_ifs at hc with he
  · obtain ⟨call, hcall, rfl⟩ := Option.map_eq_some_iff.mp hc
    exact .inr ⟨call, he, hcall, rfl⟩
  · exact .inl hc

theorem answerPending_spec (s : Mux) (h : ℕ) (sess : MuxSession) (out : Outbound) :
    ∃ calls sess₁, s.answerPending h sess out = ({ s with calls := calls }, sess₁) ∧
      (∀ h', { s with calls := calls }.held h' = s.held h') ∧
      (sess.failed = true → sess₁.failed = true) ∧ sess₁.running = sess.running ∧
      ∀ c call', calls.lookup c = some call' → call'.phase = .answered false →
        s.calls.lookup c = some call' ∨ call'.session = h ∧ sess₁.failed = true := by
  have hsame : ∀ c call', s.calls.lookup c = some call' → call'.phase = .answered false →
      s.calls.lookup c = some call' ∨ call'.session = h ∧ sess.failed = true :=
    fun _ _ hc _ => .inl hc
  unfold answerPending
  split
  · exact ⟨s.calls, sess, rfl, fun _ => rfl, id, rfl, hsame⟩
  rename_i c _
  split_ifs with hwait
  · exact ⟨s.calls, _, rfl, fun _ => rfl, id, rfl, hsame⟩
  obtain ⟨call, hcall, hsession, _⟩ := awaits_iff.mp (by simpa using hwait)
  cases out with
  | pending => exact ⟨s.calls, sess, rfl, fun _ => rfl, id, rfl, hsame⟩
  | opened =>
    refine ⟨_, _, rfl, fun h' => held_modify s c h' _, id, rfl, ?_⟩
    intro c' call' hc' hphase
    rcases lookup_setPhase hc' with hc' | ⟨_, _, _, rfl⟩
    · exact .inl hc'
    · simp [setPhase] at hphase
  | refused =>
    refine ⟨_, _, rfl, fun h' => held_modify s c h' _, fun _ => rfl, rfl, ?_⟩
    intro c' call' hc' hphase
    rcases lookup_setPhase hc' with hc' | ⟨call₁, _, hcall₁, rfl⟩
    · exact .inl hc'
    · obtain rfl : call = call₁ := by simpa [hcall] using hcall₁
      exact .inr ⟨hsession, rfl⟩

theorem receive_cases (s : Mux) (h : ℕ) (sess : MuxSession) :
    (∃ sess₁, s.receive h sess = some sess₁ ∧ sess₁.failed = sess.failed ∧
        sess₁.running = sess.running) ∨
      s.receive h sess = none ∧ s.held h = false := by
  unfold receive
  split
  · exact .inl ⟨_, rfl, rfl, rfl⟩
  · exact .inl ⟨_, rfl, rfl, rfl⟩
  · split_ifs with hheld
    · exact .inl ⟨_, rfl, rfl, rfl⟩
    · exact .inr ⟨rfl, by simpa using hheld⟩

theorem drives_poll (s : Mux) (h : ℕ) (sess : MuxSession) (out : Outbound) (alive : Bool)
    (hrun : sess.running = true) : ∃ sess', Drives s (s.poll h sess out alive) h sess sess' := by
  obtain ⟨calls, sess₁, heq, hheld, hfailed, hrun₁, hcalls⟩ := answerPending_spec s h sess out
  rw [hrun] at hrun₁
  have hdrives : ∀ sess', (sess₁.failed = true → sess'.failed = true) →
      (sess'.running = false → sess'.failed = true ∨ s.held h = false) →
      Drives s { s with calls := calls, sessions := s.sessions.insert h sess' } h sess sess' := by
    intro sess' hmono hstop
    refine ⟨rfl, rfl, rfl, rfl, hheld, fun hf => hmono (hfailed hf), hstop, ?_⟩
    intro c call' hc hphase
    rcases hcalls c call' hc hphase with hc | ⟨hh, hf⟩
    · exact .inl hc
    · exact .inr ⟨hh, hmono hf⟩
  rcases receive_cases { s with calls := calls } h sess₁ with
    ⟨sess₂, hrec, hf₂, hrun₂⟩ | ⟨hrec, hnone⟩
  · cases alive with
    | true =>
      refine ⟨sess₂, ?_⟩
      have ht := hdrives sess₂ (fun hf => hf₂ ▸ hf) (by simp [hrun₂, hrun₁])
      simpa [poll, heq, hrec] using ht
    | false =>
      refine ⟨ended { sess₂ with failed := true }, ?_⟩
      have ht := hdrives (ended { sess₂ with failed := true }) (fun _ => rfl) (fun _ => .inl rfl)
      simpa [poll, heq, hrec] using ht
  · refine ⟨ended sess₁, ?_⟩
    have ht := hdrives (ended sess₁) id (fun _ => .inr (by rw [← hheld, hnone]))
    simpa [poll, heq, hrec] using ht

/-! ## What a step can do -/

/-- The steps, with what they find. A call hears an error from a driver that has returned, and it
ends when it resumes or is cancelled. -/
inductive Acted (s : Mux) : MuxAct → Mux → Prop
  | startPass (nodes : List NodeInfo) :
    Acted s (.startPass nodes) { s with pass := ⟨nodes.map (·.connectAddr), []⟩ }
  | skip {addr : String} {unchecked addrs : List String}
      (hpass : s.pass = ⟨addr :: unchecked, addrs⟩) :
    Acted s .check { s with pass := ⟨unchecked, addrs⟩ }
  | collect {addr : String} {unchecked addrs : List String}
      (hpass : s.pass = ⟨addr :: unchecked, addrs⟩) (hnone : s.pool.lookup addr = none) :
    Acted s .check { s with pass := ⟨unchecked, addrs ++ [addr]⟩ }
  | establish {addr : String} {addrs : List String} (hpass : s.pass = ⟨[], addr :: addrs⟩) :
    Acted s (.establish true) ({ s with pass := ⟨[], addrs⟩ }.insert addr)
  | unreached {addr : String} {addrs : List String} (hpass : s.pass = ⟨[], addr :: addrs⟩) :
    Acted s (.establish false) { s with pass := ⟨[], addrs⟩ }
  | lookup {addr : String} {h : ℕ} (hp : s.pool.lookup addr = some h) :
    Acted s (.lookup addr)
      { s with calls := s.calls.insert s.nextCall ⟨addr, h, .sending⟩, nextCall := s.nextCall + 1 }
  | send {c : ℕ} {call : MuxCall} {sess : MuxSession} (hc : s.calls.lookup c = some call)
      (hsess : s.sessions.lookup call.session = some sess) :
    Acted s (.send c) { s with
      calls := HashMap.modify c (setPhase .waiting) s.calls
      sessions := s.sessions.insert call.session { sess with queue := sess.queue ++ [c] } }
  | hearError {a : MuxAct} {c : ℕ} {call : MuxCall} {sess : MuxSession}
      (hc : s.calls.lookup c = some call) (hsess : s.sessions.lookup call.session = some sess)
      (hrun : sess.running = false) :
    Acted s a { s with calls := HashMap.modify c (setPhase (.answered false)) s.calls }
  | endCall {a : MuxAct} (c : ℕ) : Acted s a { s with calls := s.calls.erase c }
  | remove {c : ℕ} {call : MuxCall} (hc : s.calls.lookup c = some call)
      (hphase : call.phase = .answered false) :
    Acted s (.resume c) { s with pool := s.pool.erase call.addr, calls := s.calls.erase c }
  | poll {h : ℕ} {sess : MuxSession} (out : Outbound) (alive : Bool)
      (hsess : s.sessions.lookup h = some sess) (hrun : sess.running = true) :
    Acted s (.poll h out alive) (s.poll h sess out alive)
  | fail {h : ℕ} {sess : MuxSession} (hsess : s.sessions.lookup h = some sess) :
    Acted s (.fail h) { s with sessions := s.sessions.insert h { sess with failed := true } }

theorem acted_of_next (hstep : s.next a = some t) : Acted s a t := by
  cases a with
  | startPass nodes =>
    simp only [next] at hstep
    split at hstep <;> cases hstep
    exact .startPass nodes
  | check =>
    simp only [next] at hstep
    split at hstep
    · rename_i addr unchecked addrs hpass
      split_ifs at hstep with hskip <;> cases hstep
      · exact .skip hpass
      · obtain ⟨_, hnone⟩ : ¬addr = "" ∧ s.pool.lookup addr = none := by simpa using hskip
        exact .collect hpass hnone
    · cases hstep
  | establish ok =>
    simp only [next] at hstep
    split at hstep
    · rename_i addr addrs hpass
      cases hstep
      cases ok with
      | true => exact .establish hpass
      | false => exact .unreached hpass
    · cases hstep
  | lookup addr =>
    obtain ⟨h, hp, rfl⟩ := Option.map_eq_some_iff.mp hstep
    exact .lookup hp
  | send c =>
    simp only [next, Option.bind_eq_bind, Option.bind_eq_some_iff] at hstep
    obtain ⟨call, hc, sess, hsess, hstep⟩ := hstep
    split_ifs at hstep with _ hrun _ <;> cases hstep
    · exact .hearError hc hsess (by simpa using hrun)
    · exact .send hc hsess
  | hangUp c =>
    simp only [next, Option.bind_eq_bind, Option.bind_eq_some_iff] at hstep
    obtain ⟨call, hc, sess, hsess, hstep⟩ := hstep
    split_ifs at hstep with hwait
    cases hstep
    exact .hearError hc hsess hwait.2
  | resume c =>
    simp only [next, Option.bind_eq_bind, Option.bind_eq_some_iff] at hstep
    obtain ⟨call, hc, hstep⟩ := hstep
    split at hstep <;> cases hstep
    · exact .endCall c
    · exact .remove hc ‹_›
  | cancel c =>
    simp only [next, Option.bind_eq_bind, Option.bind_eq_some_iff] at hstep
    obtain ⟨_, _, hstep⟩ := hstep
    cases hstep
    exact .endCall c
  | poll h out alive =>
    simp only [next, Option.bind_eq_bind, Option.bind_eq_some_iff] at hstep
    obtain ⟨sess, hsess, hstep⟩ := hstep
    split_ifs at hstep with hrun
    cases hstep
    exact .poll out alive hsess hrun
  | fail h =>
    simp only [next, Option.bind_eq_bind, Option.bind_eq_some_iff] at hstep
    obtain ⟨sess, hsess, hstep⟩ := hstep
    cases hstep
    exact .fail hsess

/-! ## Handles and failures -/

/-- A handle belongs to a session whose driver only returns on a failure, an error comes from a
failed session, and the addresses a pass has collected have no session. -/
structure Inv (s : Mux) : Prop where
  known : ∀ h, s.held h = true → h ∈ s.sessions
  fresh : ∀ h ∈ s.sessions, h < s.nextSession
  stopped : ∀ h sess, s.sessions.lookup h = some sess → s.held h = true → sess.running = false →
    sess.failed = true
  answered : ∀ c call, s.calls.lookup c = some call → call.phase = .answered false →
    s.Failed call.session
  distinct : s.pass.addrs.Nodup
  absent : ∀ addr ∈ s.pass.addrs, s.pool.lookup addr = none

/-- A session is changed in place: it may fail, and its driver returns only for a reason. -/
def Evolves (s t : Mux) : Prop :=
  ∀ h, (t.sessions.lookup h = s.sessions.lookup h) ∨
    ∃ sess sess', s.sessions.lookup h = some sess ∧ t.sessions.lookup h = some sess' ∧
      (sess.failed = true → sess'.failed = true) ∧
      (sess'.running = false → sess.running = false ∨ sess'.failed = true ∨ s.held h = false)

theorem evolves_insert {sess' : MuxSession} (hs : s.sessions.lookup h = some sess)
    (ht : t.sessions = s.sessions.insert h sess') (hf : sess.failed = true → sess'.failed = true)
    (hr : sess'.running = false → sess.running = false ∨ sess'.failed = true ∨ s.held h = false) :
    Evolves s t := by
  intro h'
  rw [ht, HashMap.lookup_insert_eq_ite]
  split_ifs with he
  · subst he
    exact .inr ⟨sess, sess', hs, rfl, hf, hr⟩
  · exact .inl rfl

theorem evolves_of_eq (ht : t.sessions = s.sessions) : Evolves s t := fun _ => .inl (by rw [ht])

theorem Evolves.failed (he : Evolves s t) (hf : s.Failed h) : t.Failed h := by
  obtain ⟨sess, hs, hfailed⟩ := hf
  rcases he h with heq | ⟨sess₁, sess', hs₁, ht, hmono, _⟩
  · exact ⟨sess, heq.trans hs, hfailed⟩
  · obtain rfl : sess = sess₁ := by simpa [hs] using hs₁
    exact ⟨sess', ht, hmono hfailed⟩

theorem Evolves.mem (he : Evolves s t) : h ∈ t.sessions ↔ h ∈ s.sessions := by
  rw [← AList.lookup_isSome, ← AList.lookup_isSome]
  rcases he h with heq | ⟨sess, sess', hs, ht, _⟩
  · rw [heq]
  · simp [hs, ht]

/-- A step that adds no session and no new holder keeps the invariant. -/
theorem Inv.evolve (hs : Inv s) (he : Evolves s t) (hnext : t.nextSession = s.nextSession)
    (hheld : ∀ h, t.held h = true → s.held h = true)
    (hcalls : ∀ c call, t.calls.lookup c = some call → call.phase = .answered false →
      s.calls.lookup c = some call ∨ t.Failed call.session)
    (hdistinct : t.pass.addrs.Nodup) (habsent : ∀ addr ∈ t.pass.addrs, t.pool.lookup addr = none) :
    Inv t where
  known h hh := he.mem.mpr (hs.known h (hheld h hh))
  fresh h hh := hnext ▸ hs.fresh h (he.mem.mp hh)
  stopped := by
    intro h sess' ht hh hrun
    rcases he h with heq | ⟨sess, sess₁, hsess, hsess', hmono, hstop⟩
    · exact hs.stopped h sess' (heq ▸ ht) (hheld h hh) hrun
    · obtain rfl : sess' = sess₁ := by simpa [ht] using hsess'
      rcases hstop hrun with hstopped | hfailed | hnone
      · exact hmono (hs.stopped h sess hsess (hheld h hh) hstopped)
      · exact hfailed
      · simp [hheld h hh] at hnone
  answered := by
    intro c call hc hphase
    rcases hcalls c call hc hphase with hc | hf
    · exact he.failed (hs.answered c call hc hphase)
    · exact hf
  distinct := hdistinct
  absent := habsent

theorem Inv.failed_of_stopped (hs : Inv s) (hc : s.calls.lookup c = some call)
    (hsess : s.sessions.lookup call.session = some sess) (hrun : sess.running = false) :
    s.Failed call.session :=
  ⟨sess, hsess, hs.stopped _ sess hsess (held_iff.mpr (.inr ⟨c, call, hc, rfl⟩)) hrun⟩

theorem held_erase_call (hh : { s with calls := s.calls.erase c }.held h = true) :
    s.held h = true := by
  rw [held_iff] at hh ⊢
  rcases hh with hp | ⟨c', call', hc', hsession⟩
  · exact .inl hp
  · rw [HashMap.lookup_erase_eq_ite] at hc'
    split_ifs at hc'
    exact .inr ⟨c', call', hc', hsession⟩

theorem Inv.hear_error (hs : Inv s) (hc : s.calls.lookup c = some call)
    (hsess : s.sessions.lookup call.session = some sess) (hrun : sess.running = false) :
    Inv { s with calls := HashMap.modify c (setPhase (.answered false)) s.calls } := by
  refine hs.evolve (evolves_of_eq rfl) rfl (fun h hh => held_modify s c h _ ▸ hh) ?_ hs.distinct
    hs.absent
  intro c' call' hc' _
  rcases lookup_setPhase hc' with hc' | ⟨call₁, _, hcall₁, rfl⟩
  · exact .inl hc'
  · obtain rfl : call = call₁ := by simpa [hc] using hcall₁
    have hfailed : s.Failed call.session := hs.failed_of_stopped hc hsess hrun
    exact .inr hfailed

theorem Inv.erase_call (hs : Inv s) (c : ℕ) : Inv { s with calls := s.calls.erase c } := by
  refine hs.evolve (evolves_of_eq rfl) rfl (fun _ => held_erase_call) ?_ hs.distinct hs.absent
  intro c' call' hc' _
  rw [HashMap.lookup_erase_eq_ite] at hc'
  split_ifs at hc'
  exact .inl hc'

theorem Inv.erase_entry (hs : Inv s) (addr : String) :
    Inv { s with pool := s.pool.erase addr } := by
  refine hs.evolve (evolves_of_eq rfl) rfl ?_ (fun _ _ hc _ => .inl hc) hs.distinct ?_
  · intro h hh
    rw [held_iff] at hh ⊢
    rcases hh with ⟨addr', hp⟩ | hcall
    · rw [HashMap.lookup_erase_eq_ite] at hp
      split_ifs at hp
      exact .inl ⟨addr', hp⟩
    · exact .inr hcall
  · intro addr' ha
    rw [HashMap.lookup_erase_eq_ite]
    split_ifs
    · rfl
    · exact hs.absent addr' ha

theorem Inv.set_pass {pass : MuxPass} (hs : Inv s) (hdistinct : pass.addrs.Nodup)
    (habsent : ∀ addr ∈ pass.addrs, s.pool.lookup addr = none) : Inv { s with pass := pass } :=
  hs.evolve (evolves_of_eq rfl) rfl (fun _ hh => hh) (fun _ _ hc _ => .inl hc) hdistinct habsent

theorem Inv.drop_address {unchecked addrs : List String} (hs : Inv s)
    (hsub : addrs.Sublist s.pass.addrs) : Inv { s with pass := ⟨unchecked, addrs⟩ } :=
  hs.set_pass (hs.distinct.sublist hsub) fun addr ha => hs.absent addr (hsub.subset ha)

theorem Inv.collect {addrs unchecked : List String} (hs : Inv s)
    (hpass : s.pass = ⟨addr :: unchecked, addrs⟩) (hnew : addr ∉ addrs)
    (hnone : s.pool.lookup addr = none) : Inv { s with pass := ⟨unchecked, addrs ++ [addr]⟩ } := by
  have hdistinct : addrs.Nodup := by simpa [hpass] using hs.distinct
  have habsent : ∀ a ∈ addrs, s.pool.lookup a = none := by simpa [hpass] using hs.absent
  apply hs.set_pass
  · rw [List.nodup_append]
    refine ⟨hdistinct, List.nodup_singleton _, ?_⟩
    intro b hb b' hb' he
    obtain rfl := List.mem_singleton.mp hb'
    exact hnew (he ▸ hb)
  · intro b hb
    rcases List.mem_append.mp hb with hb | hb
    · exact habsent b hb
    · obtain rfl := List.mem_singleton.mp hb
      exact hnone

theorem held_insert (hh : (s.insert addr).held h = true) :
    h = s.nextSession ∨ s.held h = true := by
  rw [held_iff] at hh ⊢
  rcases hh with ⟨addr', hp⟩ | hcall
  · rw [insert, HashMap.lookup_insert_eq_ite] at hp
    split_ifs at hp
    · exact .inl (Option.some.inj hp).symm
    · exact .inr (.inl ⟨addr', hp⟩)
  · exact .inr (.inr hcall)

theorem Inv.insert (hs : Inv s) (haddr : addr ∉ s.pass.addrs) : Inv (s.insert addr) := by
  -- Every session that has a handle is older than the new one.
  have hold : ∀ h, s.held h = true → h ≠ s.nextSession := by
    intro h hh
    exact (hs.fresh h (hs.known h hh)).ne
  refine ⟨?_, ?_, ?_, ?_, hs.distinct, ?_⟩
  · intro h hh
    rw [Mux.insert, AList.mem_insert]
    rcases held_insert hh with rfl | hh
    · exact .inl rfl
    · exact .inr (hs.known h hh)
  · intro h hh
    rw [Mux.insert, AList.mem_insert] at hh
    rcases hh with rfl | hh
    · exact Nat.lt_succ_self _
    · exact Nat.lt_succ_of_lt (hs.fresh h hh)
  · intro h sess hsess hh hrun
    rw [Mux.insert, HashMap.lookup_insert_eq_ite] at hsess
    split_ifs at hsess with he
    · cases hsess
      cases hrun
    · exact hs.stopped h sess hsess ((held_insert hh).resolve_left he) hrun
  · intro c call hc hphase
    obtain ⟨sess, hsess, hfailed⟩ := hs.answered c call hc hphase
    have hne := hold call.session (held_iff.mpr (.inr ⟨c, call, hc, rfl⟩))
    exact ⟨sess, by rw [Mux.insert, HashMap.lookup_insert_eq_ite, if_neg hne, hsess], hfailed⟩
  · intro addr' ha
    have hne : addr' ≠ addr := by
      rintro rfl
      exact haddr ha
    rw [Mux.insert, HashMap.lookup_insert_eq_ite, if_neg hne]
    exact hs.absent addr' ha

theorem Inv.step (hs : Inv s) (hcare : s.careful a = true) (hstep : s.next a = some t) : Inv t := by
  cases acted_of_next hstep with
  | startPass nodes => exact hs.set_pass List.nodup_nil (by simp)
  | skip hpass => exact hs.drop_address (by rw [hpass])
  | collect hpass hnone => exact hs.collect hpass (by simpa [careful, hpass] using hcare) hnone
  | @establish addr addrs hpass =>
    have hdistinct : (addr :: addrs).Nodup := by simpa [hpass] using hs.distinct
    have hrest : Inv { s with pass := ⟨[], addrs⟩ } := hs.drop_address (by simp [hpass])
    exact hrest.insert (List.nodup_cons.mp hdistinct).1
  | unreached hpass => exact hs.drop_address (by simp [hpass])
  | @lookup addr h hp =>
    refine hs.evolve (evolves_of_eq rfl) rfl ?_ ?_ hs.distinct hs.absent
    · intro h' hheld
      rw [held_iff] at hheld ⊢
      rcases hheld with hp | ⟨c, call, hc, rfl⟩
      · exact .inl hp
      · rw [HashMap.lookup_insert_eq_ite] at hc
        split_ifs at hc
        · cases hc
          exact .inl ⟨addr, hp⟩
        · exact .inr ⟨c, call, hc, rfl⟩
    · intro c call hc hphase
      rw [HashMap.lookup_insert_eq_ite] at hc
      split_ifs at hc
      · cases hc
        cases hphase
      · exact .inl hc
  | @send c _ _ hc hsess =>
    refine hs.evolve (evolves_insert hsess rfl id .inl) rfl (fun h hh => held_modify s c h _ ▸ hh)
      ?_ hs.distinct hs.absent
    intro c' call' hc' hphase
    rcases lookup_setPhase hc' with hc' | ⟨_, _, _, rfl⟩
    · exact .inl hc'
    · cases hphase
  | hearError hc hsess hrun => exact hs.hear_error hc hsess hrun
  | endCall c => exact hs.erase_call c
  | @remove c call hc hphase => exact (hs.erase_entry call.addr).erase_call c
  | @poll h sess out alive hsess hrun =>
    obtain ⟨sess', hd⟩ := drives_poll s h sess out alive hrun
    refine hs.evolve (evolves_insert hsess hd.sessions hd.failed fun hr => .inr (hd.running hr))
      hd.nextSession (fun h' hh => hd.held h' ▸ hh) ?_ (hd.pass ▸ hs.distinct) ?_
    · intro c call' hc hphase
      rcases hd.calls c call' hc hphase with hc | ⟨hsession, hfailed⟩
      · exact .inl hc
      · refine .inr ⟨sess', ?_, hfailed⟩
        rw [hd.sessions, hsession, AList.lookup_insert]
    · rw [hd.pass, hd.pool]
      exact hs.absent
  | fail hsess =>
    exact hs.evolve (evolves_insert hsess rfl (fun _ => rfl) .inl) rfl (fun _ hh => hh)
      (fun _ _ hc _ => .inl hc) hs.distinct hs.absent

/-! ## Entries of the pool -/

/-- The pool changes in two places only: a session is inserted, or a failed call removes the entry
of its address. -/
theorem next_cases (hstep : s.next a = some t) :
    (Evolves s t ∧ t.pool = s.pool) ∨
    (∃ addr addrs, a = .establish true ∧ s.pass = ⟨[], addr :: addrs⟩ ∧
      t = { s with pass := ⟨[], addrs⟩ }.insert addr) ∨
    (∃ c call, a = .resume c ∧ s.calls.lookup c = some call ∧ call.phase = .answered false ∧
      t = { s with pool := s.pool.erase call.addr, calls := s.calls.erase c }) := by
  cases acted_of_next hstep with
  | establish hpass => exact .inr (.inl ⟨_, _, rfl, hpass, rfl⟩)
  | remove hc hphase => exact .inr (.inr ⟨_, _, rfl, hc, hphase, rfl⟩)
  | send hc hsess => exact .inl ⟨evolves_insert hsess rfl id .inl, rfl⟩
  | fail hsess => exact .inl ⟨evolves_insert hsess rfl (fun _ => rfl) .inl, rfl⟩
  | @poll h sess out alive hsess hrun =>
    obtain ⟨sess', hd⟩ := drives_poll s h sess out alive hrun
    exact .inl ⟨evolves_insert hsess hd.sessions hd.failed fun hr => .inr (hd.running hr), hd.pool⟩
  | _ => exact .inl ⟨evolves_of_eq rfl, rfl⟩

theorem Inv.failed_next (hs : Inv s) (hstep : s.next a = some t) (hf : s.Failed h) :
    t.Failed h := by
  rcases next_cases hstep with ⟨he, _⟩ | ⟨addr, addrs, _, _, rfl⟩ | ⟨c, call, _, _, _, rfl⟩
  · exact he.failed hf
  · obtain ⟨sess, hsess, hfailed⟩ := hf
    have hne : h ≠ s.nextSession := (hs.fresh h (HashMap.mem_of_lookup hsess)).ne
    exact ⟨sess, by rw [Mux.insert, HashMap.lookup_insert_eq_ite, if_neg hne, hsess], hfailed⟩
  · exact hf

theorem Inv.keeps (hs : Inv s) (hcare : s.careful a = true) (hstep : s.next a = some t)
    (hp : s.pool.lookup addr = some h) (hf : ¬ t.Failed h) : t.pool.lookup addr = some h := by
  rcases next_cases hstep with ⟨_, hpool⟩ | ⟨addr', addrs, _, hpass, rfl⟩ |
    ⟨c, call, rfl, hc, hphase, rfl⟩
  · rw [hpool, hp]
  · have hnone := hs.absent addr' (by simp [hpass])
    have hne : addr ≠ addr' := by
      rintro rfl
      simp [hp] at hnone
    rw [Mux.insert, HashMap.lookup_insert_eq_ite, if_neg hne, hp]
  · rw [HashMap.lookup_erase_eq_ite]
    split_ifs with he
    · -- The entry is the session that refused the call, so it has failed.
      subst he
      obtain rfl : h = call.session := by simpa [careful, hc, hphase, hp] using hcare
      exact absurd (hs.answered c call hc hphase) hf
    · exact hp

theorem inv_init : Inv init where
  known h hh := by simp [held, init, HashMap.values] at hh
  fresh h hh := by simp [init] at hh
  stopped h sess hs := by simp [init] at hs
  answered c call hc := by simp [init] at hc
  distinct := List.nodup_nil
  absent addr ha := by simp [init] at ha

theorem inv_reachable (h : carefulSystem.Reachable s) : Inv s := by
  apply h.invariant (I := Inv)
  · rintro s rfl
    exact inv_init
  · rintro s a t hs ⟨hstep, hcare⟩
    exact hs.step hcare hstep

/-- In a run without lost races, a session keeps its entry until it fails. -/
theorem keeps_of_reaches (hs : carefulSystem.Reachable s) (ht : carefulSystem.Reaches s t)
    (hp : s.pool.lookup addr = some h) (hf : ¬ t.Failed h) : t.pool.lookup addr = some h := by
  have hI : Inv t ∧ (t.pool.lookup addr = some h ∨ t.Failed h) := by
    refine ht.preserves (I := fun u => Inv u ∧ (u.pool.lookup addr = some h ∨ u.Failed h)) ?_
      ⟨inv_reachable hs, .inl hp⟩
    rintro u a v ⟨hu, hentry⟩ ⟨hstep, hcare⟩
    refine ⟨hu.step hcare hstep, ?_⟩
    by_cases hv : v.Failed h
    · exact .inr hv
    rcases hentry with hentry | hfailed
    · exact .inl (hu.keeps hcare hstep hentry hv)
    · exact absurd (hu.failed_next hstep hfailed) hv
  exact hI.2.resolve_right hf

/-! ## The last handle -/

def Ended (s : Mux) (h : ℕ) : Prop :=
  ∃ sess, s.sessions.lookup h = some sess ∧ sess.running = false ∧ sess.streams = []

theorem awaits_of_not_held (hh : s.held h = false) (c : ℕ) : s.awaits h c = false := by
  by_contra hwait
  obtain ⟨call, hc, hsession, _⟩ := awaits_iff.mp (by simpa using hwait)
  have hheld := held_iff.mpr (.inr ⟨c, call, hc, hsession⟩)
  simp [hh] at hheld

/-- A poll of a driver without handles returns, or drops one abandoned request. -/
theorem poll_of_not_held (hh : s.held h = false) (hrun : sess.running = true) (out : Outbound)
    (alive : Bool) :
    (s.poll h sess out alive).Ended h ∨
      ∃ sess', (s.poll h sess out alive).sessions.lookup h = some sess' ∧ sess'.running = true ∧
        sess'.queue.length < sess.queue.length := by
  have hanswer : s.answerPending h sess out = (s, { sess with pending := none }) := by
    unfold answerPending
    split
    · rename_i hp
      rw [← hp]
    · rw [awaits_of_not_held hh]
      rfl
  cases hq : sess.queue with
  | nil =>
    refine .inl ⟨ended { sess with pending := none }, ?_, rfl, rfl⟩
    simp [poll, hanswer, receive, hq, hh]
  | cons c queue =>
    cases alive with
    | true =>
      refine .inr ⟨{ sess with pending := some c, queue := queue }, ?_, hrun, by simp⟩
      simp [poll, hanswer, receive, hq]
    | false =>
      refine .inl ⟨ended { sess with pending := some c, queue := queue, failed := true }, ?_, rfl,
        rfl⟩
      simp [poll, hanswer, receive, hq]

/-- Without handles, whatever the connection answers, the driver returns within a few polls. -/
theorem ends_of_not_held {outs : List (Outbound × Bool)} (hs : s.sessions.lookup h = some sess)
    (hrun : sess.running = true) (hh : s.held h = false) (houts : sess.queue.length < outs.length) :
    ∃ polls, polls <+: outs.map (fun o => MuxAct.poll h o.1 o.2) ∧
      ∃ t, Transition.exec next s polls = some t ∧ t.Ended h := by
  induction outs generalizing s sess with
  | nil => simp at houts
  | cons o outs ih =>
    have hstep : s.next (.poll h o.1 o.2) = some (s.poll h sess o.1 o.2) := by
      simp [next, hs, hrun]
    have hheld : (s.poll h sess o.1 o.2).held h = false := by
      obtain ⟨sess', hd⟩ := drives_poll s h sess o.1 o.2 hrun
      rw [hd.held, hh]
    rcases poll_of_not_held hh hrun o.1 o.2 with hend | ⟨sess', hs', hrun', hlt⟩
    · refine ⟨[.poll h o.1 o.2], by simp, _, ?_, hend⟩
      simp [Transition.exec, hstep]
    · have hlen : sess'.queue.length < outs.length := by
        rw [List.length_cons] at houts
        omega
      obtain ⟨polls, hpolls, t, ht, hend⟩ := ih hs' hrun' hheld hlen
      refine ⟨.poll h o.1 o.2 :: polls, ?_, t, ?_, hend⟩
      · rw [List.map_cons]
        exact List.cons_prefix_cons.mpr ⟨rfl, hpolls⟩
      · simp [Transition.exec, hstep, ht]

/-- In every run in which no pass collects an address twice and no failed call finds another
session under its address, a session that has not failed keeps its entry; and a session without
handles ends with all its tunnels. -/
theorem healthy_kept (hs : carefulSystem.Reachable s) (ht : carefulSystem.Reaches s t) :
    (∀ addr h, s.pool.lookup addr = some h → ¬ t.Failed h → t.pool.lookup addr = some h) ∧
      ∀ h sess, t.sessions.lookup h = some sess → sess.running = true → t.held h = false →
        ∀ outs : List (Outbound × Bool), sess.queue.length < outs.length →
          ∃ polls, polls <+: outs.map (fun o => MuxAct.poll h o.1 o.2) ∧
            ∃ u, Transition.exec next t polls = some u ∧ u.Ended h :=
  ⟨fun _ _ hp hf => keeps_of_reaches hs ht hp hf,
    fun _ _ hsess hrun hh _ houts => ends_of_not_held hsess hrun hh houts⟩

def behind (id : String) : NodeInfo := ⟨id, "", some "r:1", none, .default⟩

def passActs : List MuxAct := [.startPass [behind "n1"], .check, .establish true]

def openActs : List MuxAct :=
  [.lookup "r:1", .send 0, .poll 0 .pending true, .poll 0 .opened true, .resume 0]

def passed : Mux := Transition.run next init passActs

def tunnelled : Mux := Transition.run next init (passActs ++ openActs)

theorem not_failed_of_lookup (hs : (s.sessions.lookup h).map (·.failed) = some false) :
    ¬ s.Failed h := by
  rintro ⟨sess, hsess, hf⟩
  simp [hsess, hf] at hs

theorem healthy_kept_tunnelled :
    carefulSystem.Reachable passed ∧ carefulSystem.Reaches passed tunnelled ∧
      passed.pool.lookup "r:1" = some 0 ∧ ¬ tunnelled.Failed 0 ∧
      tunnelled.pool.lookup "r:1" = some 0 := by
  have hpass : carefulSystem.Reachable passed :=
    ⟨init, rfl, Transition.reaches_restrict_of_exec passActs rfl⟩
  have hopen : carefulSystem.Reaches passed tunnelled :=
    Transition.reaches_restrict_of_exec openActs rfl
  have hentry : passed.pool.lookup "r:1" = some 0 := by decide
  have hhealthy : ¬ tunnelled.Failed 0 := not_failed_of_lookup (by decide)
  exact ⟨hpass, hopen, hentry, hhealthy, (healthy_kept hpass hopen).1 "r:1" 0 hentry hhealthy⟩

/-- Two nodes behind one relay: the pass has collected its address twice, opened a session, and a
tunnel runs on it. -/
def sharedRelay : Mux :=
  Transition.run next init
    ([.startPass [behind "n1", behind "n2"], .check, .check, .establish true] ++ openActs)

def replaced : Mux := Transition.run next sharedRelay [.establish true, .poll 0 .pending true]

/-- Two calls found the session dead; the first has removed it, and a pass has opened another. -/
def lateCall : Mux :=
  Transition.run next init
    (passActs ++
      [.lookup "r:1", .lookup "r:1", .poll 0 .pending false, .send 0, .send 1, .resume 0] ++
      passActs)

def removed : Mux := Transition.run next lateCall [.resume 1]

/-- A session that has not failed is replaced, with the tunnel on it, by a pass that collected its
address twice; and another is removed by a call that asked its predecessor. -/
theorem healthy_lost :
    (system.Reachable sharedRelay ∧ sharedRelay.pool.lookup "r:1" = some 0 ∧
        (sharedRelay.sessions.lookup 0).map (·.streams) = some [0] ∧
        system.Reaches sharedRelay replaced ∧ ¬ replaced.Failed 0 ∧
        replaced.pool.lookup "r:1" = some 1 ∧ replaced.Ended 0) ∧
      system.Reachable lateCall ∧ lateCall.pool.lookup "r:1" = some 1 ∧
        system.Reaches lateCall removed ∧ ¬ removed.Failed 1 ∧
        removed.pool.lookup "r:1" = none := by
  refine ⟨⟨?_, by decide, by decide, ?_, not_failed_of_lookup (by decide), by decide, ?_⟩, ?_,
    by decide, ?_, not_failed_of_lookup (by decide), by decide⟩
  · exact ⟨init, rfl, Transition.reaches_run (by decide)⟩
  · exact Transition.reaches_run (by decide)
  · exact ⟨⟨false, false, none, [], []⟩, by decide, rfl, rfl⟩
  · exact ⟨init, rfl, Transition.reaches_run (by decide)⟩
  · exact Transition.reaches_run (by decide)

end Mux

end Stouter
