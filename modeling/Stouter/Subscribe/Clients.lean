import Stouter.Subscribe.Attempt
import Stouter.Subscribe.SlotAccounting

/-! # The clients of a TCP service

`serve_client` for any number of client connections at once, over the balancer
that they share with the HTTP requests to the same service. A client holds a
slot from the pick until its attempt has failed or its proxying has ended, and
every access of the balancer's lock is a step of its own.
-/

namespace Stouter

/-- How `serve_client` returns: the reason it counts, or the end of the proxy. -/
inductive ClientEnd
  | noNodes
  | circuitOpen
  | nodeUnreachable
  | proxied (ok : Bool)
  deriving DecidableEq, Repr

inductive ClientPhase
  /-- At the top of the loop. -/
  | choosing
  | connecting (slot : String)
  /-- The failure is recorded and the slot is still held. -/
  | failed (slot : String)
  | proxying (slot : String)
  | ended (reason : ClientEnd)
  deriving DecidableEq, Repr

structure Client where
  backends : List Backend
  tried : List String
  lastErr : Option String
  phase : ClientPhase

inductive ClientAct
  | pick (now : Instant)
  | established
  | refused (err : String) (now : Instant)
  | release
  | finished (ok : Bool)

namespace Client

def slot? (c : Client) : Option String :=
  match c.phase with
  | .choosing => none
  | .connecting slot => some slot
  | .failed slot => some slot
  | .proxying slot => some slot
  | .ended _ => none

def maxAttempts (c : Client) : ℕ := min c.backends.length maxTunnelAttempts

/-- A client as it enters the loop, or returns for want of nodes. -/
def start (st : SharedState) (serviceName : String) (now : Instant) : Client :=
  let backends := st.preferHealthy (st.serviceBackends serviceName) serviceName now
  ⟨backends, [], none, if backends.isEmpty then .ended .noNodes else .choosing⟩

/-- `serve_client` up to its next use of the balancer or its next await. -/
def serve (b : Balancer) (c : Client) : ClientAct → Option (Client × Balancer)
  | .pick now =>
    match c.phase with
    | .choosing =>
      if c.tried.length < c.maxAttempts then
        match b.pick c.backends c.tried now with
        | (.chosen i slot, b) => some
          ({ c with
            tried := c.tried ++ [(c.backends.get i).node.id]
            phase := .connecting slot }, b)
        | (.allTried, b) => some ({ c with phase := .ended .nodeUnreachable }, b)
        | (.atCapacity, b) =>
          let reason := if c.lastErr.isNone then .circuitOpen else .nodeUnreachable
          some ({ c with phase := .ended reason }, b)
      else some ({ c with phase := .ended .nodeUnreachable }, b)
    | _ => none
  | .established =>
    match c.phase with
    | .connecting slot => some ({ c with phase := .proxying slot }, b.recordSuccess slot)
    | _ => none
  | .refused err now =>
    match c.phase with
    | .connecting slot => some
      ({ c with lastErr := some err, phase := .failed slot }, (b.recordFailure slot now).2)
    | _ => none
  | .release =>
    match c.phase with
    | .failed slot => some ({ c with phase := .choosing }, b.dropSlot slot)
    | _ => none
  | .finished ok =>
    match c.phase with
    | .proxying slot => some ({ c with phase := .ended (.proxied ok) }, b.dropSlot slot)
    | _ => none

end Client

/-- The clients of a service, and the slots of the HTTP requests that share its balancer. -/
structure Clients where
  balancer : Balancer
  clients : List Client
  requests : List String

inductive ClientsAct
  | accept (st : SharedState) (now : Instant)
  | serve (k : ℕ) (act : ClientAct)
  | request (act : BalancerAct)

namespace Clients

def started : Clients := ⟨.new, [], []⟩

def next (serviceName : String) (s : Clients) : ClientsAct → Option Clients
  | .accept st now => some { s with
      balancer := s.balancer.retainNodes (st.serviceBackends serviceName)
      clients := s.clients ++ [.start st serviceName now] }
  | .serve k act =>
    s.clients[k]?.bind fun c => (c.serve s.balancer act).map fun (c, b) =>
      { s with balancer := b, clients := s.clients.set k c }
  | .request act =>
    (Granted.next ⟨s.balancer, s.requests⟩ act).map fun g =>
      { s with balancer := g.balancer, requests := g.live }

def live (s : Clients) (id : String) : ℕ :=
  s.clients.countP (fun c => c.slot? == some id) + s.requests.count id

/-- The runs of a service whose membership tables stand under the ids of their nodes. -/
def system (serviceName : String) : Transition Clients ClientsAct :=
  (Transition.ofNext (· = started) (next serviceName)).restrict fun _ a _ =>
    ∀ st now, a = .accept st now → Keyed st.knownNodes

end Clients

/-! ## What a client does -/

namespace Client

variable {b b' : Balancer} {c c' : Client} {act : ClientAct}

/-- Every backend that has not been tried is at its limit. -/
def Full (b : Balancer) (c : Client) : Prop :=
  ∀ d ∈ c.backends, d.node.id ∉ c.tried → b.hasRoom d = false

inductive Serves (b : Balancer) (c : Client) : ClientAct → Client → Balancer → Prop
  | chose {now : Instant} {i : Fin c.backends.length} {current : HashMap String ℤ}
      (hp : c.phase = .choosing) (hlt : c.tried.length < c.maxAttempts)
      (hnew : (c.backends.get i).node.id ∉ c.tried) (hroom : b.hasRoom (c.backends.get i) = true) :
      Serves b c (.pick now)
        { c with
          tried := c.tried ++ [(c.backends.get i).node.id]
          phase := .connecting (c.backends.get i).node.id }
        { b with
          current
          active := b.active.insert (c.backends.get i).node.id
            (b.activeOn (c.backends.get i).node.id + 1) }
  | spent {now : Instant} (hp : c.phase = .choosing)
      (hall : c.maxAttempts ≤ c.tried.length ∨ ∀ d ∈ c.backends, d.node.id ∈ c.tried) :
      Serves b c (.pick now) { c with phase := .ended .nodeUnreachable } b
  | full {now : Instant} (hp : c.phase = .choosing) (hlt : c.tried.length < c.maxAttempts)
      (hfull : Full b c) :
      Serves b c (.pick now)
        { c with phase := .ended (if c.lastErr.isNone then .circuitOpen else .nodeUnreachable) } b
  | established {slot : String} (hp : c.phase = .connecting slot) :
      Serves b c .established { c with phase := .proxying slot } (b.recordSuccess slot)
  | refused {slot err : String} {now : Instant} (hp : c.phase = .connecting slot) :
      Serves b c (.refused err now) { c with lastErr := some err, phase := .failed slot }
        (b.recordFailure slot now).2
  | release {slot : String} (hp : c.phase = .failed slot) :
      Serves b c .release { c with phase := .choosing } (b.dropSlot slot)
  | finished {slot : String} {ok : Bool} (hp : c.phase = .proxying slot) :
      Serves b c (.finished ok) { c with phase := .ended (.proxied ok) } (b.dropSlot slot)

theorem serves_of_serve (h : c.serve b act = some (c', b')) : Serves b c act c' b' := by
  cases act with
  | pick now =>
    simp only [serve] at h
    split at h
    · next hp =>
      by_cases hlt : c.tried.length < c.maxAttempts
      · rw [if_pos hlt] at h
        rcases b.pick_cases c.backends c.tried now with
          ⟨hu, hpick⟩ | ⟨hu, ho, hpick⟩ | ⟨i, hi, current, hpick⟩
        · rw [hpick] at h
          cases h
          exact .spent hp (.inr (Balancer.untried_eq_nil.mp hu))
        · rw [hpick] at h
          cases h
          exact .full hp hlt (Balancer.openSet_eq_nil.mp ho)
        · rw [hpick] at h
          cases h
          obtain ⟨hnew, hroom⟩ := Balancer.mem_openSet.mp (Balancer.eligible_subset hi)
          exact .chose hp hlt hnew hroom
      · rw [if_neg hlt] at h
        cases h
        exact .spent hp (.inl (Nat.le_of_not_lt hlt))
    · cases h
  | established =>
    simp only [serve] at h
    split at h <;> cases h
    next hp => exact .established hp
  | refused err now =>
    simp only [serve] at h
    split at h <;> cases h
    next hp => exact .refused hp
  | release =>
    simp only [serve] at h
    split at h <;> cases h
    next hp => exact .release hp
  | finished ok =>
    simp only [serve] at h
    split at h <;> cases h
    next hp => exact .finished hp

theorem Serves.backends (h : Serves b c act c' b') : c'.backends = c.backends := by
  cases h <;> rfl

/-- A slot is on the node tried last, there is an error once an attempt has failed, and a client
gives up with the reason it should. -/
def InPhase (c : Client) : Prop :=
  match c.phase with
  | .choosing => c.backends ≠ [] ∧ (c.lastErr = none ↔ c.tried = [])
  | .connecting slot => c.tried.getLast? = some slot
  | .failed slot => c.tried.getLast? = some slot ∧ c.lastErr ≠ none
  | .proxying slot => c.tried.getLast? = some slot
  | .ended .noNodes => c.backends = []
  | .ended .circuitOpen => c.backends ≠ [] ∧ c.tried = []
  | .ended .nodeUnreachable => c.tried ≠ [] ∧ c.lastErr ≠ none
  | .ended (.proxied _) => c.tried ≠ []

/-- What holds of a client at every moment: it has tried distinct backends, at most as many as it
may. -/
structure Sound (c : Client) : Prop where
  distinct : (c.backends.map (·.node.id)).Nodup
  nodup : c.tried.Nodup
  known : c.tried ⊆ c.backends.map (·.node.id)
  bounded : c.tried.length ≤ c.maxAttempts
  phase : c.InPhase

theorem Sound.choosing (hc : Sound c) (hp : c.phase = .choosing) :
    c.backends ≠ [] ∧ (c.lastErr = none ↔ c.tried = []) := by
  simpa [InPhase, hp] using hc.phase

theorem Sound.untried (hc : Sound c) (hlt : c.tried.length < c.maxAttempts) :
    ∃ d ∈ c.backends, d.node.id ∉ c.tried := by
  by_contra hall
  push Not at hall
  have hsub : c.backends.map (·.node.id) ⊆ c.tried := by
    intro id hid
    obtain ⟨d, hd, rfl⟩ := List.mem_map.mp hid
    exact hall d hd
  have hle := (List.subperm_of_subset hc.distinct hsub).length_le
  rw [List.length_map] at hle
  have hmin : c.maxAttempts ≤ c.backends.length := Nat.min_le_left _ _
  omega

theorem Sound.spent (hc : Sound c) (hp : c.phase = .choosing)
    (hall : c.maxAttempts ≤ c.tried.length ∨ ∀ d ∈ c.backends, d.node.id ∈ c.tried) :
    c.tried.length = c.maxAttempts ∧ c.tried ≠ [] := by
  have hpos : 0 < c.maxAttempts := by
    have hlen := List.length_pos_of_ne_nil (hc.choosing hp).1
    exact Nat.lt_min.mpr ⟨hlen, by decide⟩
  have hspent : c.maxAttempts ≤ c.tried.length := by
    rcases hall with hall | hall
    · exact hall
    · by_contra hlt
      obtain ⟨d, hd, hnew⟩ := hc.untried (Nat.lt_of_not_le hlt)
      exact hnew (hall d hd)
  refine ⟨Nat.le_antisymm hc.bounded hspent, ?_⟩
  rintro hnil
  rw [hnil, List.length_nil] at hspent
  omega

theorem sound_start {st : SharedState} (hk : Keyed st.knownNodes) (serviceName : String)
    (now : Instant) : Sound (start st serviceName now) := by
  have hsub : ((st.preferHealthy (st.serviceBackends serviceName) serviceName now).map
      (·.node.id)).Sublist ((st.serviceBackends serviceName).map (·.node.id)) :=
    SharedState.preferHealthy_sublist.map _
  generalize hb : st.preferHealthy (st.serviceBackends serviceName) serviceName now = backends
    at hsub
  have hstart : start st serviceName now =
      ⟨backends, [], none, if backends.isEmpty then .ended .noNodes else .choosing⟩ := by
    rw [start, hb]
  rw [hstart]
  refine ⟨(SharedState.serviceBackends_nodup hk serviceName).sublist hsub, List.nodup_nil,
    List.nil_subset _, Nat.zero_le _, ?_⟩
  cases backends <;> simp [InPhase]

theorem slot?_start (st : SharedState) (serviceName : String) (now : Instant) :
    (start st serviceName now).slot? = none := by
  unfold start slot?
  dsimp only
  split_ifs <;> rfl

theorem tried_ne_nil {slot : String} (h : c.tried.getLast? = some slot) : c.tried ≠ [] := by
  intro hnil
  rw [hnil] at h
  cases h

theorem Sound.serve (hc : Sound c) (h : c.serve b act = some (c', b')) : Sound c' := by
  obtain ⟨hdistinct, hnodup, hknown, hbounded, hphase⟩ := hc
  cases serves_of_serve h with
  | @chose now i current hp hlt hnew hroom =>
    refine ⟨hdistinct, ?_, ?_, ?_, ?_⟩
    · rw [← List.concat_eq_append]
      exact hnodup.concat hnew
    · intro id hid
      rcases List.mem_append.mp hid with hid | hid
      · exact hknown hid
      · rw [List.mem_singleton.mp hid]
        exact List.mem_map.mpr ⟨_, c.backends.get_mem i, rfl⟩
    · rw [List.length_append, List.length_singleton]
      exact hlt
    · simp [InPhase]
  | spent hp hall =>
    have hne := (Sound.spent ⟨hdistinct, hnodup, hknown, hbounded, hphase⟩ hp hall).2
    simp only [InPhase, hp] at hphase
    exact ⟨hdistinct, hnodup, hknown, hbounded, hne, fun hnone => hne (hphase.2.mp hnone)⟩
  | full hp hlt hfull =>
    simp only [InPhase, hp] at hphase
    refine ⟨hdistinct, hnodup, hknown, hbounded, ?_⟩
    cases herr : c.lastErr with
    | none => exact ⟨hphase.1, hphase.2.mp herr⟩
    | some err =>
      have hsome : c.lastErr ≠ none := by
        rw [herr]
        exact Option.some_ne_none err
      exact ⟨fun hnil => hsome (hphase.2.mpr hnil), Option.some_ne_none err⟩
  | established hp =>
    simp only [InPhase, hp] at hphase
    exact ⟨hdistinct, hnodup, hknown, hbounded, hphase⟩
  | refused hp =>
    simp only [InPhase, hp] at hphase
    exact ⟨hdistinct, hnodup, hknown, hbounded, hphase, Option.some_ne_none _⟩
  | release hp =>
    simp only [InPhase, hp] at hphase
    obtain ⟨hlast, herr⟩ := hphase
    have hne := tried_ne_nil hlast
    refine ⟨hdistinct, hnodup, hknown, hbounded, ?_, ?_⟩
    · intro hnil
      rw [show c.backends = [] from hnil, List.map_nil] at hknown
      exact hne (List.subset_nil.mp hknown)
    · exact ⟨fun hnone => absurd hnone herr, fun hnil => absurd hnil hne⟩
  | finished hp =>
    simp only [InPhase, hp] at hphase
    exact ⟨hdistinct, hnodup, hknown, hbounded, tried_ne_nil hphase⟩

end Client

/-! ## All clients of a service -/

namespace Clients

open Client

variable {serviceName : String} {s t : Clients} {a : ClientsAct}

structure Sound (s : Clients) : Prop where
  clients : ∀ c ∈ s.clients, c.Sound
  accounts : s.balancer.Accounts s.live

theorem accounts_serves {b b' : Balancer} {c c' : Client} {act : ClientAct}
    {held held' : String → ℕ}
    (h : Serves b c act c' b') (ha : b.Accounts held)
    (hheld : ∀ id, c.slot? = some id → 0 < held id)
    (heq : ∀ id, held' id + (if c.slot? = some id then 1 else 0) =
      held id + (if c'.slot? = some id then 1 else 0)) : b'.Accounts held' := by
  cases h with
  | chose hp hlt hnew hroom =>
    refine ha.grant rfl fun id => ?_
    have hid := heq id
    simp only [slot?, hp, Option.some.injEq, reduceCtorEq, if_false, eq_comm (b := id)] at hid
    split_ifs at hid ⊢ <;> omega
  | spent hp hall =>
    refine ha.of_active rfl fun id => ?_
    simpa [slot?, hp] using heq id
  | full hp hlt hfull =>
    refine ha.of_active rfl fun id => ?_
    simpa [slot?, hp] using heq id
  | established hp =>
    refine ha.of_active rfl fun id => ?_
    simpa [slot?, hp] using heq id
  | refused hp =>
    refine ha.of_active (Balancer.recordFailure_active _ _ b) fun id => ?_
    simpa [slot?, hp] using heq id
  | @release slot hp =>
    refine ha.dropSlot (hheld slot (by rw [slot?, hp])) fun id => ?_
    have hid := heq id
    simp only [slot?, hp, Option.some.injEq, reduceCtorEq, if_false, eq_comm (b := id)] at hid
    split_ifs at hid ⊢ <;> omega
  | @finished slot ok hp =>
    refine ha.dropSlot (hheld slot (by rw [slot?, hp])) fun id => ?_
    have hid := heq id
    simp only [slot?, hp, Option.some.injEq, reduceCtorEq, if_false, eq_comm (b := id)] at hid
    split_ifs at hid ⊢ <;> omega

theorem serve_cases {k : ℕ} {act : ClientAct} (h : next serviceName s (.serve k act) = some t) :
    ∃ l₁ l₂ c c' b', s.clients[k]? = some c ∧ t.clients[k]? = some c' ∧
      s.clients = l₁ ++ c :: l₂ ∧ c.serve s.balancer act = some (c', b') ∧
      t = ⟨b', l₁ ++ c' :: l₂, s.requests⟩ := by
  obtain ⟨c, hc, hmap⟩ := Option.bind_eq_some_iff.mp h
  obtain ⟨⟨c', b'⟩, hserve, rfl⟩ := Option.map_eq_some_iff.mp hmap
  obtain ⟨l₁, l₂, hl, hset, -⟩ := List.split_of_getElem? hc
  have hk : k < s.clients.length := (List.getElem?_eq_some_iff.mp hc).1
  exact ⟨l₁, l₂, c, c', b', hc, List.getElem?_set_self hk, hl, hserve, by simp only [hset]⟩

theorem live_serve {l₁ l₂ : List Client} {c : Client} (hl : s.clients = l₁ ++ c :: l₂)
    (c' : Client) (b' : Balancer) (id : String) :
    live ⟨b', l₁ ++ c' :: l₂, s.requests⟩ id + (if c.slot? = some id then 1 else 0) =
      s.live id + (if c'.slot? = some id then 1 else 0) := by
  have hlive : s.live = live ⟨b', l₁ ++ c :: l₂, s.requests⟩ := by
    rw [← hl]
    rfl
  rw [hlive]
  simp only [live, List.countP_append, List.countP_cons, beq_iff_eq]
  omega

theorem accounts_request {act : BalancerAct} (ha : s.balancer.Accounts s.live)
    (h : next serviceName s (.request act) = some t) : t.balancer.Accounts t.live := by
  obtain ⟨g, hg, rfl⟩ := Option.map_eq_some_iff.mp h
  cases act with
  | pick candidates tried now =>
    obtain rfl := Option.some.inj hg
    rcases s.balancer.pick_cases candidates tried now with
      ⟨-, hp⟩ | ⟨-, -, hp⟩ | ⟨i, -, current, hp⟩
    · rw [hp]
      exact ha
    · rw [hp]
      exact ha
    · rw [hp]
      refine ha.grant rfl fun id => ?_
      simp only [live, Granted.afterPick, List.count_cons, beq_iff_eq, eq_comm (a := id)]
      split_ifs <;> omega
  | dropSlot id =>
    obtain ⟨hid, hg⟩ := Option.ite_none_right_eq_some.mp hg
    cases hg
    have hpos : 0 < s.requests.count id := List.count_pos_iff.mpr hid
    have hlive : 0 < s.live id := by
      simp only [live]
      omega
    refine ha.dropSlot hlive fun k => ?_
    simp only [live, List.count_erase, beq_iff_eq, eq_comm (a := k)]
    split_ifs with hk
    · subst hk
      omega
    · rfl
  | retainNodes all =>
    obtain rfl := Option.some.inj hg
    exact ha.of_active rfl fun _ => rfl
  | recordSuccess id =>
    obtain rfl := Option.some.inj hg
    exact ha.of_active rfl fun _ => rfl
  | recordFailure id now =>
    obtain rfl := Option.some.inj hg
    exact ha.of_active (Balancer.recordFailure_active id now s.balancer) fun _ => rfl

theorem Sound.step (hs : s.Sound) (h : (system serviceName).step s a t) : t.Sound := by
  obtain ⟨hnext, hkeyed⟩ := h
  cases a with
  | accept st now =>
    obtain rfl := Option.some.inj hnext
    refine ⟨fun c hc => ?_, hs.accounts.of_active rfl fun id => ?_⟩
    · rcases List.mem_append.mp hc with hc | hc
      · exact hs.clients c hc
      · rw [List.mem_singleton.mp hc]
        exact sound_start (hkeyed st now rfl) serviceName now
    · simp [live, slot?_start]
  | serve k act =>
    obtain ⟨l₁, l₂, c, c', b', hc, -, hl, hserve, rfl⟩ := serve_cases hnext
    refine ⟨fun d hd => ?_, ?_⟩
    · have hold : ∀ d ∈ l₁ ++ c :: l₂, d.Sound := hl ▸ hs.clients
      rw [List.mem_append, List.mem_cons] at hd
      rcases hd with hd | rfl | hd
      · exact hold d (List.mem_append_left _ hd)
      · exact (hold c (by simp)).serve hserve
      · exact hold d (List.mem_append_right _ (List.mem_cons_of_mem c hd))
    · refine accounts_serves (serves_of_serve hserve) hs.accounts (fun id hid => ?_)
        (live_serve hl _ _)
      simp only [live, hl, List.countP_append, List.countP_cons, hid, beq_self_eq_true, if_true]
      omega
  | request act =>
    refine ⟨?_, accounts_request hs.accounts hnext⟩
    obtain ⟨g, -, rfl⟩ := Option.map_eq_some_iff.mp hnext
    exact hs.clients

theorem sound_started : started.Sound :=
  ⟨by simp [started], Balancer.accounts_new fun id => by simp [live, started]⟩

theorem sound_of_reachable (h : (system serviceName).Reachable s) : s.Sound := by
  refine h.invariant (I := Sound) ?_ fun _ _ _ hs hstep => hs.step hstep
  rintro s rfl
  exact sound_started

/-- The backend is at its limit with the slots that are held on it. -/
def AtLimit (s : Clients) (d : Backend) : Prop :=
  ∃ m, d.maxConnections = some m ∧ m.toNat ≤ s.live d.node.id

theorem atLimit_iff (hs : s.Sound) {d : Backend} : s.AtLimit d ↔ s.balancer.hasRoom d = false := by
  rw [Balancer.hasRoom_eq_false, hs.accounts.activeOn]
  rfl

inductive Picked (s : Clients) (c : Client) (t : Clients) (c' : Client) : Prop
  | chose (d : Backend) (hd : d ∈ c.backends) (hnew : d.node.id ∉ c.tried)
      (hlt : c.tried.length < c.maxAttempts) (hroom : ¬ s.AtLimit d)
      (hphase : c'.phase = .connecting d.node.id) (htried : c'.tried = c.tried ++ [d.node.id])
      (hlive : t.live d.node.id = s.live d.node.id + 1)
  | rejected (hfirst : c.tried = []) (hfull : ∀ d ∈ c.backends, s.AtLimit d)
      (hphase : c'.phase = .ended .circuitOpen)
  | gaveUp (hlater : c.tried ≠ [])
      (hall : c.tried.length = c.maxAttempts ∨
        ∀ d ∈ c.backends, d.node.id ∉ c.tried → s.AtLimit d)
      (hphase : c'.phase = .ended .nodeUnreachable)

theorem picked_of_next {k : ℕ} {c : Client} {now : Instant} (hs : s.Sound)
    (hc : s.clients[k]? = some c) (hp : c.phase = .choosing)
    (h : next serviceName s (.serve k (.pick now)) = some t) :
    ∃ c', t.clients[k]? = some c' ∧ c'.backends = c.backends ∧ Picked s c t c' := by
  obtain ⟨l₁, l₂, c₀, c', b', hc₀, hplace, hl, hserve, rfl⟩ := serve_cases h
  obtain rfl : c = c₀ := Option.some.inj (hc.symm.trans hc₀)
  have hsound := hs.clients c (List.mem_of_getElem? hc)
  have hlive := live_serve hl c' b'
  refine ⟨c', hplace, ?_⟩
  cases serves_of_serve hserve with
  | @chose _ i current _ hlt hnew hroom =>
    refine ⟨rfl, .chose _ (c.backends.get_mem i) hnew hlt ?_ rfl rfl ?_⟩
    · rw [atLimit_iff hs, hroom]
      exact Bool.noConfusion
    · simpa [slot?, hp] using hlive (c.backends.get i).node.id
  | spent _ hall =>
    obtain ⟨hlen, hne⟩ := hsound.spent hp hall
    exact ⟨rfl, .gaveUp hne (.inl hlen) rfl⟩
  | full _ hlt hfull =>
    refine ⟨rfl, ?_⟩
    have hlimit : ∀ d ∈ c.backends, d.node.id ∉ c.tried → s.AtLimit d := fun d hd hnew =>
      (atLimit_iff hs).mpr (hfull d hd hnew)
    obtain ⟨-, herr⟩ := hsound.choosing hp
    by_cases hnil : c.tried = []
    · refine .rejected hnil (fun d hd => hlimit d hd (by simp [hnil])) ?_
      simp [herr.mpr hnil]
    · refine .gaveUp hnil (.inr hlimit) ?_
      have hsome : c.lastErr ≠ none := fun hnone => hnil (herr.mp hnone)
      simp [hsome]

/-- The balancer counts exactly the slots that clients and requests hold, so none is left once they
are gone. A client tries distinct backends, at most three; it is rejected at once only if every
backend is at its limit, and it gives up only after failed attempts, when it may not try more or
the others are at their limits. -/
theorem clients_accounted (h : (system serviceName).Reachable s) :
    (∀ id, s.balancer.active.lookup id = if s.live id = 0 then none else some (s.live id)) ∧
    ((∀ c ∈ s.clients, ∃ reason, c.phase = .ended reason) → s.requests = [] →
      ∀ id, s.balancer.active.lookup id = none) ∧
    (∀ c ∈ s.clients, c.tried.Nodup ∧ c.tried ⊆ c.backends.map (·.node.id) ∧
      c.tried.length ≤ min c.backends.length 3 ∧ c.InPhase) ∧
    ∀ k c now t, s.clients[k]? = some c → c.phase = .choosing →
      next serviceName s (.serve k (.pick now)) = some t →
      ∃ c', t.clients[k]? = some c' ∧ c'.backends = c.backends ∧ Picked s c t c' := by
  have hs := sound_of_reachable h
  refine ⟨hs.accounts, fun hended hrequests id => ?_, fun c hc => ?_, ?_⟩
  · rw [hs.accounts id, if_pos]
    have hnone : s.clients.countP (fun c => c.slot? == some id) = 0 := by
      refine List.countP_eq_zero.mpr fun c hc => ?_
      obtain ⟨reason, hreason⟩ := hended c hc
      simp [slot?, hreason]
    simp [live, hnone, hrequests]
  · have hc := hs.clients c hc
    exact ⟨hc.nodup, hc.known, hc.bounded, hc.phase⟩
  · intro k c now t hc hp hnext
    exact picked_of_next hs hc hp hnext

/-- A subscriber that knows one node, whose instance of the service takes one connection. -/
def oneInstance : SharedState where
  config := .default
  knownNodes := (∅ : NodeMap).insert "a" ⟨"a", "", none, some 0, .default⟩
  serviceIndex := (∅ : HashMap (String × String) Service).insert ("a", "db")
    ⟨"db", "a", 5432, [], 1, some 1, .tcp, none, none, ∅, ∅, none⟩
  localHealth := .default

theorem keyed_oneInstance : Keyed oneInstance.knownNodes := HashMap.all_empty.insert rfl

def secondWaits : List ClientsAct :=
  [.accept oneInstance 1, .serve 0 (.pick 2), .serve 0 .established, .accept oneInstance 3]

theorem accept_secondWaits {st : SharedState} {now : Instant}
    (h : .accept st now ∈ secondWaits) : st = oneInstance := by
  simp only [secondWaits, List.mem_cons, ClientsAct.accept.injEq, reduceCtorEq, List.not_mem_nil,
    or_false, false_or] at h
  rcases h with ⟨rfl, -⟩ | ⟨rfl, -⟩ <;> rfl

/-- The only slot is taken, so the second client is rejected. -/
theorem clients_accounted_secondWaits :
    (Transition.run (next "db") started secondWaits).balancer.active.lookup "a" = some 1 ∧
      ∃ c', (Transition.run (next "db") started
          (secondWaits ++ [.serve 1 (.pick 4)])).clients[1]? = some c' ∧
        c'.phase = .ended .circuitOpen := by
  have hr : (system "db").Reachable (Transition.run (next "db") started secondWaits) := by
    refine ⟨started, rfl, Transition.reaches_of_steps (next "db") secondWaits
      (fun a ha s t hnext => ⟨hnext, ?_⟩) rfl⟩
    rintro st now rfl
    rw [accept_secondWaits ha]
    exact keyed_oneInstance
  obtain ⟨hcount, -, -, hpick⟩ := clients_accounted hr
  refine ⟨hcount "a", ?_⟩
  obtain ⟨c', hc', -, hpicked⟩ := hpick 1 (.start oneInstance "db" 3) 4 _ rfl rfl rfl
  refine ⟨c', hc', ?_⟩
  cases hpicked with
  | chose d hd hnew hlt hroom hphase htried hlive =>
    obtain rfl := List.mem_singleton.mp
      (show d ∈ [⟨⟨"a", "", none, some 0, .default⟩, 1, some 1, none, ∅⟩] from hd)
    exact absurd ⟨1, rfl, by decide⟩ hroom
  | rejected hfirst hfull hphase => exact hphase
  | gaveUp hlater hall hphase => exact absurd rfl hlater

/-! ## Limits -/

/-- The step picks from the backend, for a client or for a request. -/
def Offers (s : Clients) (a : ClientsAct) (d : Backend) : Prop :=
  (∃ k c now, a = .serve k (.pick now) ∧ s.clients[k]? = some c ∧ d ∈ c.backends) ∨
    ∃ candidates tried now, a = .request (.pick candidates tried now) ∧ d ∈ candidates

/-- A step adds at most one slot to a node, from a backend of it that is below its limit. -/
theorem live_next (hs : s.Sound) (h : next serviceName s a = some t) (id : String) :
    t.live id ≤ s.live id ∨
      t.live id = s.live id + 1 ∧ ∃ d, Offers s a d ∧ d.node.id = id ∧ ¬ s.AtLimit d := by
  cases a with
  | accept st now =>
    obtain rfl := Option.some.inj h
    exact .inl (by simp [live, slot?_start])
  | serve k act =>
    obtain ⟨l₁, l₂, c, c', b', hc, -, hl, hserve, rfl⟩ := serve_cases h
    have hlive := live_serve hl c' b' id
    cases serves_of_serve hserve with
    | @chose now i current hp hlt hnew hroom =>
      simp only [slot?, hp, reduceCtorEq, if_false, Option.some.injEq] at hlive
      split_ifs at hlive with hid
      · refine .inr ⟨hlive, c.backends.get i,
          .inl ⟨k, c, now, rfl, hc, c.backends.get_mem i⟩, hid, ?_⟩
        rw [atLimit_iff hs, hroom]
        exact Bool.noConfusion
      · exact .inl hlive.le
    | spent hp hall =>
      simp only [slot?, hp, reduceCtorEq, if_false] at hlive
      exact .inl hlive.le
    | full hp hlt hfull =>
      simp only [slot?, hp, reduceCtorEq, if_false] at hlive
      exact .inl hlive.le
    | established hp => exact .inl (by simpa [slot?, hp] using hlive.le)
    | refused hp => exact .inl (by simpa [slot?, hp] using hlive.le)
    | release hp =>
      simp only [slot?, hp, reduceCtorEq, if_false] at hlive
      exact .inl (by omega)
    | finished hp =>
      simp only [slot?, hp, reduceCtorEq, if_false] at hlive
      exact .inl (by omega)
  | request act =>
    obtain ⟨g, hg, rfl⟩ := Option.map_eq_some_iff.mp h
    cases act with
    | pick candidates tried now =>
      obtain rfl := Option.some.inj hg
      rcases s.balancer.pick_cases candidates tried now with
        ⟨-, hp⟩ | ⟨-, -, hp⟩ | ⟨i, hi, current, hp⟩
      · rw [hp]
        exact .inl le_rfl
      · rw [hp]
        exact .inl le_rfl
      · rw [hp]
        simp only [live, Granted.afterPick, List.count_cons, beq_iff_eq]
        split_ifs with hid
        · refine .inr ⟨by omega, candidates.get i,
            .inr ⟨candidates, tried, now, rfl, candidates.get_mem i⟩, hid, ?_⟩
          rw [atLimit_iff hs, (Balancer.mem_openSet.mp (Balancer.eligible_subset hi)).2]
          exact Bool.noConfusion
        · exact .inl le_rfl
    | dropSlot slot =>
      obtain ⟨-, hg⟩ := Option.ite_none_right_eq_some.mp hg
      cases hg
      refine .inl (Nat.add_le_add_left ?_ _)
      exact (List.erase_sublist).count_le id
    | retainNodes all =>
      obtain rfl := Option.some.inj hg
      exact .inl le_rfl
    | recordSuccess slot =>
      obtain rfl := Option.some.inj hg
      exact .inl le_rfl
    | recordFailure slot now =>
      obtain rfl := Option.some.inj hg
      exact .inl le_rfl

/-- The instances on the node all have a limit of at most `m`. -/
def LimitedTo (id : String) (m : ℕ) (l : List Backend) : Prop :=
  ∀ d ∈ l, d.node.id = id → ∃ limit, d.maxConnections = some limit ∧ limit.toNat ≤ m

def limited (serviceName id : String) (m : ℕ) : Transition Clients ClientsAct :=
  (system serviceName).restrict fun _ a _ =>
    (∀ st now, a = .accept st now → LimitedTo id m (st.serviceBackends serviceName)) ∧
      ∀ candidates tried now, a = .request (.pick candidates tried now) → LimitedTo id m candidates

structure Capped (id : String) (m : ℕ) (s : Clients) : Prop where
  sound : s.Sound
  backends : ∀ c ∈ s.clients, LimitedTo id m c.backends
  live : s.live id ≤ m

theorem limitedTo_next {id : String} {m : ℕ} (hs : ∀ c ∈ s.clients, LimitedTo id m c.backends)
    (h : next serviceName s a = some t)
    (haccept : ∀ st now, a = .accept st now → LimitedTo id m (st.serviceBackends serviceName)) :
    ∀ c ∈ t.clients, LimitedTo id m c.backends := by
  cases a with
  | accept st now =>
    obtain rfl := Option.some.inj h
    intro c hc
    rcases List.mem_append.mp hc with hc | hc
    · exact hs c hc
    · rw [List.mem_singleton.mp hc]
      intro d hd
      exact haccept st now rfl d (SharedState.preferHealthy_sublist.subset hd)
  | serve k act =>
    obtain ⟨l₁, l₂, c, c', b', -, -, hl, hserve, rfl⟩ := serve_cases h
    rw [hl] at hs
    intro d hd
    rw [List.mem_append, List.mem_cons] at hd
    rcases hd with hd | rfl | hd
    · exact hs d (List.mem_append_left _ hd)
    · rw [(serves_of_serve hserve).backends]
      exact hs c (by simp)
    · exact hs d (List.mem_append_right _ (List.mem_cons_of_mem c hd))
  | request act =>
    obtain ⟨g, -, rfl⟩ := Option.map_eq_some_iff.mp h
    exact hs

theorem Capped.step {id : String} {m : ℕ} (hs : s.Capped id m)
    (h : (limited serviceName id m).step s a t) : t.Capped id m := by
  obtain ⟨hstep, haccept, hrequest⟩ := h
  refine ⟨hs.sound.step hstep, limitedTo_next hs.backends hstep.1 haccept, ?_⟩
  rcases live_next hs.sound hstep.1 id with hle | ⟨heq, d, hoffer, hid, hroom⟩
  · exact hle.trans hs.live
  · obtain ⟨limit, hlimit, hle⟩ : ∃ limit, d.maxConnections = some limit ∧ limit.toNat ≤ m := by
      rcases hoffer with ⟨k, c, now, -, hc, hd⟩ | ⟨candidates, tried, now, ha, hd⟩
      · exact hs.backends c (List.mem_of_getElem? hc) d hd hid
      · exact hrequest candidates tried now ha d hd hid
    have hlt : ¬ limit.toNat ≤ s.live id := fun hfull => hroom ⟨limit, hlimit, hid ▸ hfull⟩
    omega

/-- If every configuration limits a node to at most `m` connections, the clients and requests of one
balancer together never hold more, whatever order they are served in. -/
theorem limit_never_exceeded {id : String} {m : ℕ} (h : (limited serviceName id m).Reachable s) :
    s.live id ≤ m := by
  suffices hcapped : s.Capped id m from hcapped.live
  refine h.invariant (I := Capped id m) ?_ fun _ _ _ hs hstep => hs.step hstep
  rintro s rfl
  exact ⟨sound_started, by simp [started], by simp [live, started]⟩

theorem limit_never_exceeded_secondWaits :
    (Transition.run (next "db") started secondWaits).live "a" = 1 ∧
      (Transition.run (next "db") started secondWaits).live "a" ≤ 1 := by
  refine ⟨by decide, @limit_never_exceeded "db" _ "a" 1 ⟨started, rfl, ?_⟩⟩
  refine Transition.reaches_of_steps (next "db") secondWaits
    (fun a ha s t hnext => ⟨⟨hnext, ?_⟩, ?_, ?_⟩) rfl
  · rintro st now rfl
    rw [accept_secondWaits ha]
    exact keyed_oneInstance
  · rintro st now rfl
    rw [accept_secondWaits ha]
    intro d hd hid
    obtain rfl := List.mem_singleton.mp
      (show d ∈ [⟨⟨"a", "", none, some 0, .default⟩, 1, some 1, none, ∅⟩] from hd)
    exact ⟨1, rfl, le_rfl⟩
  · rintro candidates tried now rfl
    simp [secondWaits] at ha

end Clients

end Stouter
