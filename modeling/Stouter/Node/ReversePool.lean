import Stouter.Gossip.Membership
import Stouter.Lists.Basic
import Stouter.Transition.Basic

/-! # Reverse connections

A node that nobody can reach opens connections to its peers and waits on them
for tunnel requests. `run_reverse_pool_loop` starts workers and never stops one;
a worker holds one connection at a time and opens the next one as soon as a
request has arrived. The other end of a connection lies in the pool of a relay
until a request takes it. Each end learns of the other with a delay, and a
connection can break at any time.
-/

namespace Stouter

/-- The address of a relay and a position in the pool for it. -/
abbrev WorkerKey := String × ℕ

/-- How far a worker has come: at the head of its loop, connecting and registering, waiting on a
connection, pausing after an error, or returned. -/
inductive WorkerPhase
  | checking
  | opening
  | waiting (conn : ℕ)
  | sleeping
  | stopped
  deriving DecidableEq, Repr

inductive NodeEnd
  | waiting
  | serving
  | closed
  deriving DecidableEq, Repr

/-- The relay has not handled the registration, has the connection in its pool, has sent a request
on it, or has dropped it, with or without a request under way. -/
inductive RelayEnd
  | registering
  | idle
  | asked
  | closed (sent : Bool)
  deriving DecidableEq, Repr

def RelayEnd.hasAsked : RelayEnd → Bool
  | .registering => false
  | .idle => false
  | .asked => true
  | .closed sent => sent

def RelayEnd.isClosed : RelayEnd → Bool
  | .closed _ => true
  | _ => false

/-- A reverse connection and the number of tunnels the node has served on it. -/
structure ReverseConn where
  key : WorkerKey
  node : NodeEnd
  relay : RelayEnd
  failed : Bool
  served : ℕ
  deriving DecidableEq, Repr

namespace ReverseConn

/-- A tunnel request arrives. It is handled by a task of its own, and the worker goes on. -/
def receive (c : ReverseConn) : Option ReverseConn :=
  if c.relay.hasAsked then some { c with node := .serving, served := c.served + 1 } else none

def lost (c : ReverseConn) : Option ReverseConn :=
  if c.relay.isClosed || c.failed then some { c with node := .closed } else none

/-- An idle connection is simply closed. -/
def abandon (c : ReverseConn) : Option ReverseConn := some { c with node := .closed }

def finish (c : ReverseConn) : Option ReverseConn :=
  if c.node = .serving then some { c with node := .closed } else none

/-- `handle_reverse_registration` puts the connection into the pool. -/
def register (c : ReverseConn) : Option ReverseConn :=
  if c.relay = .registering then some { c with relay := .idle } else none

/-- `relay_tunnel` takes the connection from the pool and sends the request. -/
def take (c : ReverseConn) : Option ReverseConn :=
  if c.relay = .idle then some { c with relay := .asked } else none

/-- The relay refuses the registration, goes away or is done with the tunnel. -/
def drop (c : ReverseConn) : Option ReverseConn :=
  some { c with relay := .closed c.relay.hasAsked }

def fail (c : ReverseConn) : Option ReverseConn := some { c with failed := true }

end ReverseConn

structure ReversePool where
  workers : List (WorkerKey × WorkerPhase)
  conns : List ReverseConn
  shutdown : Bool
  deriving DecidableEq, Repr

inductive ReverseAct
  | tick (known : NodeMap)
  | check (i : ℕ)
  | opened (i : ℕ)
  | openFailed (i : ℕ)
  | receive (i : ℕ)
  | lost (i : ℕ)
  | cancelled (i : ℕ)
  | wake (i : ℕ)
  | finish (k : ℕ)
  | register (k : ℕ)
  | take (k : ℕ)
  | drop (k : ℕ)
  | fail (k : ℕ)
  | shutdown

namespace ReversePool

/-- The addresses of the peers that can be connected to. -/
def relayAddrs (known : NodeMap) : List String :=
  (known.values.filter fun n => n.relay.isNone && !n.addr.isEmpty).map (·.addr)

def spawn (workers : List (WorkerKey × WorkerPhase)) (key : WorkerKey) :
    List (WorkerKey × WorkerPhase) :=
  if key ∈ workers.map Prod.fst then workers else workers ++ [(key, .checking)]

/-- One pass of `run_reverse_pool_loop`. -/
def spawnAll (poolSize : ℕ) (peers : List String) (workers : List (WorkerKey × WorkerPhase)) :
    List (WorkerKey × WorkerPhase) :=
  (peers.flatMap fun addr => (List.range poolSize).map fun slot => (addr, slot)).foldl spawn workers

def setPhase (s : ReversePool) (i : ℕ) (key : WorkerKey) (phase : WorkerPhase) : ReversePool :=
  { s with workers := s.workers.set i (key, phase) }

def setConn (s : ReversePool) (k : ℕ) (c : ReverseConn) : ReversePool :=
  { s with conns := s.conns.set k c }

def fromPhase (s : ReversePool) (i : ℕ) (old : WorkerPhase) (f : WorkerKey → ReversePool) :
    Option ReversePool :=
  s.workers[i]?.bind fun w => if w.2 = old then some (f w.1) else none

/-- A worker leaves the connection it waits on, with what becomes of it. -/
def leave (s : ReversePool) (i : ℕ) (phase : WorkerPhase)
    (f : ReverseConn → Option ReverseConn) : Option ReversePool :=
  match s.workers[i]? with
  | some (key, .waiting k) =>
    s.conns[k]?.bind fun c => (f c).map fun c' => (s.setPhase i key phase).setConn k c'
  | _ => none

def onConn (s : ReversePool) (k : ℕ) (f : ReverseConn → Option ReverseConn) : Option ReversePool :=
  s.conns[k]?.bind fun c => (f c).map (s.setConn k)

def next (poolSize : ℕ) (s : ReversePool) : ReverseAct → Option ReversePool
  | .tick known => some { s with workers := spawnAll poolSize (relayAddrs known) s.workers }
  | .check i =>
    s.fromPhase i .checking fun key => s.setPhase i key (if s.shutdown then .stopped else .opening)
  | .opened i =>
    s.fromPhase i .opening fun key => { s.setPhase i key (.waiting s.conns.length) with
      conns := s.conns ++ [⟨key, .waiting, .registering, false, 0⟩] }
  | .openFailed i => s.fromPhase i .opening fun key => s.setPhase i key .sleeping
  | .receive i => s.leave i .checking ReverseConn.receive
  | .lost i => s.leave i .sleeping ReverseConn.lost
  | .cancelled i => if s.shutdown then s.leave i .checking ReverseConn.abandon else none
  | .wake i => s.fromPhase i .sleeping fun key => s.setPhase i key .checking
  | .finish k => s.onConn k ReverseConn.finish
  | .register k => s.onConn k ReverseConn.register
  | .take k => s.onConn k ReverseConn.take
  | .drop k => s.onConn k ReverseConn.drop
  | .fail k => s.onConn k ReverseConn.fail
  | .shutdown => some { s with shutdown := true }

def start : ReversePool := ⟨[], [], false⟩

/-- The workers of a node that keeps `poolSize` connections to each peer, and their connections. -/
def system (poolSize : ℕ) : Transition ReversePool ReverseAct :=
  .ofNext (· = start) (next poolSize)

/-! ## Workers -/

variable {s t : ReversePool} {a : ReverseAct} {poolSize i k : ℕ} {key : WorkerKey}
  {phase old : WorkerPhase} {c c' : ReverseConn} {workers : List (WorkerKey × WorkerPhase)}

theorem spawn_spec (workers : List (WorkerKey × WorkerPhase)) (key : WorkerKey) :
    workers <+: spawn workers key ∧ key ∈ (spawn workers key).map Prod.fst ∧
      (∀ w ∈ spawn workers key, w ∈ workers ∨ w = (key, .checking)) ∧
      ((workers.map Prod.fst).Nodup → ((spawn workers key).map Prod.fst).Nodup) := by
  unfold spawn
  split_ifs with hmem
  · exact ⟨List.prefix_rfl, hmem, fun w hw => .inl hw, id⟩
  · refine ⟨List.prefix_append _ _, by simp, fun w hw => by simpa using hw, fun hnodup => ?_⟩
    refine List.nodup_map_concat.mpr ⟨fun w hw hkey => hmem ?_, hnodup⟩
    exact List.mem_map.mpr ⟨w, hw, hkey⟩

theorem foldl_spawn_spec (keys : List WorkerKey) (workers : List (WorkerKey × WorkerPhase)) :
    workers <+: keys.foldl spawn workers ∧
      (∀ key ∈ keys, key ∈ (keys.foldl spawn workers).map Prod.fst) ∧
      (∀ w ∈ keys.foldl spawn workers, w ∈ workers ∨ ∃ key ∈ keys, w = (key, .checking)) ∧
      ((workers.map Prod.fst).Nodup → ((keys.foldl spawn workers).map Prod.fst).Nodup) := by
  induction keys generalizing workers with
  | nil => exact ⟨List.prefix_rfl, by simp, fun w hw => .inl hw, id⟩
  | cons key keys ih =>
    obtain ⟨hpre, hkey, hnew, hnodup⟩ := spawn_spec workers key
    obtain ⟨hpre', hkeys, hnew', hnodup'⟩ := ih (spawn workers key)
    refine ⟨hpre.trans hpre', ?_, ?_, fun h => hnodup' (hnodup h)⟩
    · intro key' hkey'
      rcases List.mem_cons.mp hkey' with rfl | hkey'
      · exact List.map_subset _ hpre'.subset hkey
      · exact hkeys key' hkey'
    · intro w hw
      rcases hnew' w hw with hw | ⟨key', hkey', rfl⟩
      · rcases hnew w hw with hw | rfl
        · exact .inl hw
        · exact .inr ⟨key, List.mem_cons_self, rfl⟩
      · exact .inr ⟨key', List.mem_cons_of_mem _ hkey', rfl⟩

theorem mem_set_phase (hnodup : (workers.map Prod.fst).Nodup)
    (hi : workers[i]? = some (key, old)) {key' : WorkerKey} {phase' : WorkerPhase} :
    (key', phase') ∈ workers.set i (key, phase) ↔
      if key' = key then phase' = phase else (key', phase') ∈ workers := by
  obtain ⟨l₁, l₂, hl, hset, -⟩ := List.split_of_getElem? hi
  rw [hset]
  rw [hl] at hnodup ⊢
  obtain ⟨hapart, -⟩ := List.nodup_map_middle.mp hnodup
  have hother : (key, phase') ∉ l₁ ++ l₂ := fun hmem => hapart _ hmem rfl
  split_ifs with hkey
  · subst hkey
    rw [List.mem_append] at hother
    push Not at hother
    simp [hother.1, hother.2]
  · simp [hkey]

theorem map_fst_set (hi : workers[i]? = some (key, old)) :
    (workers.set i (key, phase)).map Prod.fst = workers.map Prod.fst := by
  obtain ⟨l₁, l₂, hl, hset, -⟩ := List.split_of_getElem? hi
  rw [hset, hl]
  simp

/-! ## The invariant -/

structure ConnOk (shutdown : Bool) (c : ReverseConn) : Prop where
  once : c.served ≤ 1
  unserved : c.node = .waiting → c.served = 0
  serving : c.node = .serving → c.served = 1
  asked : c.served = 1 → c.relay.hasAsked = true
  alive : shutdown = false → c.failed = false → c.relay.isClosed = false →
    c.node = .waiting ∨ c.served = 1

def WaitedOn (conns : List ReverseConn) (key : WorkerKey) (k : ℕ) : Prop :=
  ∃ c, conns[k]? = some c ∧ c.key = key ∧ c.node = .waiting

/-- Workers have distinct keys within the pool and stop at a shutdown only, and the connections
that are waited on are those of the waiting workers. -/
structure Sound (poolSize : ℕ) (s : ReversePool) : Prop where
  nodup : (s.workers.map Prod.fst).Nodup
  slots : ∀ w ∈ s.workers, w.1.2 < poolSize
  running : s.shutdown = false → ∀ w ∈ s.workers, w.2 ≠ .stopped
  waits : ∀ key k, (key, .waiting k) ∈ s.workers ↔ WaitedOn s.conns key k
  conns : ∀ c ∈ s.conns, ConnOk s.shutdown c

theorem Sound.waiting (hs : s.Sound poolSize) (hi : s.workers[i]? = some (key, old)) :
    WaitedOn s.conns key k ↔ old = .waiting k := by
  rw [← hs.waits]
  constructor
  · intro hmem
    have hsame := List.inj_on_of_nodup_map hs.nodup (List.mem_of_getElem? hi) hmem rfl
    exact (Prod.mk.inj hsame).2
  · rintro rfl
    exact List.mem_of_getElem? hi

theorem Sound.update {conns : List ReverseConn} (hs : s.Sound poolSize)
    (hi : s.workers[i]? = some (key, old)) (hstop : phase = .stopped → s.shutdown = true)
    (hown : ∀ k, WaitedOn conns key k ↔ phase = .waiting k)
    (hothers : ∀ key' k, key' ≠ key → (WaitedOn conns key' k ↔ WaitedOn s.conns key' k))
    (hconns : ∀ c ∈ conns, ConnOk s.shutdown c) :
    Sound poolSize { s.setPhase i key phase with conns } := by
  constructor
  · exact (map_fst_set hi).symm ▸ hs.nodup
  · intro w hw
    have hkey : w.1 ∈ s.workers.map Prod.fst := map_fst_set hi ▸ List.mem_map_of_mem hw
    obtain ⟨w', hw', heq⟩ := List.mem_map.mp hkey
    exact heq ▸ hs.slots w' hw'
  · rintro hrun ⟨key', phase'⟩ hw heq
    have hphase := (mem_set_phase hs.nodup hi).mp hw
    split_ifs at hphase with hkey
    · have hshut := hstop (hphase.symm.trans heq)
      rw [show s.shutdown = false from hrun] at hshut
      cases hshut
    · exact hs.running hrun _ hphase heq
  · intro key' k
    refine Iff.trans (mem_set_phase hs.nodup hi) ?_
    split_ifs with hkey
    · subst hkey
      rw [hown, eq_comm]
    · rw [hs.waits, hothers key' k hkey]
  · exact hconns

theorem Sound.idle (hs : s.Sound poolSize) (hi : s.workers[i]? = some (key, old))
    (hold : ∀ k, old ≠ .waiting k) (hnew : ∀ k, phase ≠ .waiting k)
    (hstop : phase = .stopped → s.shutdown = true) : (s.setPhase i key phase).Sound poolSize := by
  refine hs.update hi hstop (fun k => ?_) (fun _ _ _ => Iff.rfl) hs.conns
  rw [hs.waiting hi]
  exact ⟨fun h => absurd h (hold k), fun h => absurd h (hnew k)⟩

theorem mem_setConn {c₀ : ReverseConn} (hk : s.conns[k]? = some c) (h : c₀ ∈ s.conns.set k c') :
    c₀ = c' ∨ c₀ ∈ s.conns := by
  obtain ⟨l₁, l₂, hl, hset, -⟩ := List.split_of_getElem? hk
  rw [hset, List.mem_append, List.mem_cons] at h
  rw [hl, List.mem_append, List.mem_cons]
  tauto

theorem connOk_setConn (hs : s.Sound poolSize) (hk : s.conns[k]? = some c)
    (hok : ConnOk s.shutdown c') : ∀ c₀ ∈ s.conns.set k c', ConnOk s.shutdown c₀ := by
  intro c₀ hc₀
  rcases mem_setConn hk hc₀ with rfl | hc₀
  · exact hok
  · exact hs.conns c₀ hc₀

theorem waitedOn_set {k' : ℕ} {key' : WorkerKey} (hk : s.conns[k]? = some c) :
    WaitedOn (s.conns.set k c') key' k' ↔
      if k' = k then c'.key = key' ∧ c'.node = .waiting else WaitedOn s.conns key' k' := by
  obtain ⟨hlt, -⟩ := List.getElem?_eq_some_iff.mp hk
  unfold WaitedOn
  by_cases heq : k' = k
  · subst heq
    simp [List.getElem?_set_self hlt]
  · rw [if_neg heq, List.getElem?_set_ne (Ne.symm heq)]

theorem Sound.settle (hs : s.Sound poolSize) (hi : s.workers[i]? = some (key, .waiting k))
    (hk : s.conns[k]? = some c) (hnode : c'.node ≠ .waiting)
    (hnew : ∀ k, phase ≠ .waiting k) (hstop : phase = .stopped → s.shutdown = true)
    (hok : ConnOk s.shutdown c') : ((s.setPhase i key phase).setConn k c').Sound poolSize := by
  change Sound poolSize { s.setPhase i key phase with conns := s.conns.set k c' }
  refine hs.update hi hstop (fun k' => ?_) (fun key' k' hne => ?_) (connOk_setConn hs hk hok)
  · rw [waitedOn_set hk]
    split_ifs with heq
    · exact ⟨fun h => absurd h.2 hnode, fun h => absurd h (hnew k')⟩
    · rw [hs.waiting hi]
      constructor
      · intro h
        exact absurd (WorkerPhase.waiting.inj h).symm heq
      · intro h
        exact absurd h (hnew k')
  · rw [waitedOn_set hk]
    split_ifs with heq
    · subst heq
      -- The connection belongs to the worker that leaves it.
      obtain ⟨c₀, hc₀, hkey₀, -⟩ := (hs.waiting hi).mpr rfl
      obtain rfl : c = c₀ := Option.some.inj (hk.symm.trans hc₀)
      constructor
      · rintro ⟨-, hwait⟩
        exact absurd hwait hnode
      · rintro ⟨c₁, hc₁, hkey₁, -⟩
        obtain rfl : c = c₁ := Option.some.inj (hk.symm.trans hc₁)
        exact absurd (hkey₁.symm.trans hkey₀) hne
    · rfl

theorem Sound.setConn (hs : s.Sound poolSize) (hk : s.conns[k]? = some c) (hkey : c'.key = c.key)
    (hnode : c'.node = .waiting ↔ c.node = .waiting) (hok : ConnOk s.shutdown c') :
    (s.setConn k c').Sound poolSize := by
  refine { hs with waits := fun key' k' => ?_, conns := connOk_setConn hs hk hok }
  refine (hs.waits key' k').trans ?_
  refine Iff.trans ?_ (waitedOn_set hk).symm
  split_ifs with heq
  · subst heq
    rw [hkey, hnode]
    unfold WaitedOn
    simp [hk]
  · rfl

theorem Sound.opened (hs : s.Sound poolSize) (hi : s.workers[i]? = some (key, .opening)) :
    Sound poolSize { s.setPhase i key (.waiting s.conns.length) with
      conns := s.conns ++ [⟨key, .waiting, .registering, false, 0⟩] } := by
  have hlast : ∀ key' k, WaitedOn (s.conns ++ [⟨key, .waiting, .registering, false, 0⟩]) key' k ↔
      WaitedOn s.conns key' k ∨ k = s.conns.length ∧ key' = key := by
    intro key' k
    unfold WaitedOn
    rcases Nat.lt_trichotomy k s.conns.length with hlt | rfl | hgt
    · rw [List.getElem?_append_left hlt]
      simp [Nat.ne_of_lt hlt]
    · simp [eq_comm]
    · rw [List.getElem?_eq_none (by simp; omega), List.getElem?_eq_none (by omega)]
      simp
      omega
  refine hs.update hi (by simp) (fun k => ?_) (fun key' k hne => ?_) fun c hc => ?_
  · rw [hlast, hs.waiting hi]
    simp [eq_comm]
  · rw [hlast]
    simp [hne]
  · rcases List.mem_append.mp hc with hc | hc
    · exact hs.conns c hc
    · obtain rfl := List.mem_singleton.mp hc
      exact ⟨by simp, by simp, by simp, by simp, by simp⟩

theorem Sound.spawned (hs : s.Sound poolSize) (peers : List String) :
    Sound poolSize { s with workers := spawnAll poolSize peers s.workers } := by
  obtain ⟨hpre, -, hnew, hnodup⟩ := foldl_spawn_spec
    (peers.flatMap fun addr => (List.range poolSize).map fun slot => (addr, slot)) s.workers
  refine { hs with nodup := hnodup hs.nodup, slots := ?_, running := ?_, waits := ?_ }
  · intro w hw
    rcases hnew w hw with hw | ⟨key, hkey, rfl⟩
    · exact hs.slots w hw
    · simp only [List.mem_flatMap, List.mem_map, List.mem_range] at hkey
      obtain ⟨addr, -, slot, hslot, rfl⟩ := hkey
      exact hslot
  · intro hrun w hw
    rcases hnew w hw with hw | ⟨key, -, rfl⟩
    · exact hs.running hrun w hw
    · simp
  · intro key k
    rw [← hs.waits]
    constructor
    · intro hw
      rcases hnew _ hw with hw | ⟨key', -, heq⟩
      · exact hw
      · cases heq
    · intro hw
      exact hpre.subset hw

theorem fromPhase_cases {f : WorkerKey → ReversePool} (h : s.fromPhase i old f = some t) :
    ∃ key, s.workers[i]? = some (key, old) ∧ t = f key := by
  obtain ⟨⟨key, phase⟩, hi, h⟩ := Option.bind_eq_some_iff.mp h
  obtain ⟨hphase, heq⟩ := Option.ite_none_right_eq_some.mp h
  exact ⟨key, by rw [hi, ← hphase], (Option.some.inj heq).symm⟩

theorem leave_cases {f : ReverseConn → Option ReverseConn} (hs : s.Sound poolSize)
    (h : s.leave i phase f = some t) :
    ∃ key k c c', s.workers[i]? = some (key, .waiting k) ∧ s.conns[k]? = some c ∧
      c.node = .waiting ∧ f c = some c' ∧ t = (s.setPhase i key phase).setConn k c' := by
  unfold leave at h
  split at h
  · next key k hi =>
    obtain ⟨c, hk, h⟩ := Option.bind_eq_some_iff.mp h
    obtain ⟨c', hf, rfl⟩ := Option.map_eq_some_iff.mp h
    obtain ⟨c₀, hc₀, -, hwait⟩ := (hs.waiting hi).mpr rfl
    obtain rfl : c = c₀ := Option.some.inj (hk.symm.trans hc₀)
    exact ⟨key, k, c, c', hi, hk, hwait, hf, rfl⟩
  · cases h

theorem onConn_cases {f : ReverseConn → Option ReverseConn} (h : s.onConn k f = some t) :
    ∃ c c', s.conns[k]? = some c ∧ f c = some c' ∧ t = s.setConn k c' := by
  obtain ⟨c, hk, h⟩ := Option.bind_eq_some_iff.mp h
  obtain ⟨c', hf, rfl⟩ := Option.map_eq_some_iff.mp h
  exact ⟨c, c', hk, hf, rfl⟩

/-! ## What becomes of a connection -/

section Conn

variable {shutdown : Bool}

theorem ConnOk.receive (h : ConnOk shutdown c) (hwait : c.node = .waiting)
    (hf : c.receive = some c') : ConnOk shutdown c' := by
  obtain ⟨hasked, hf⟩ := Option.ite_none_right_eq_some.mp hf
  obtain rfl := Option.some.inj hf
  have hzero := h.unserved hwait
  exact ⟨by simp [hzero], by simp, by simp [hzero], fun _ => hasked, by simp [hzero]⟩

theorem ConnOk.lost (h : ConnOk shutdown c) (hf : c.lost = some c') : ConnOk shutdown c' := by
  obtain ⟨hbroken, hf⟩ := Option.ite_none_right_eq_some.mp hf
  obtain rfl := Option.some.inj hf
  refine { h with unserved := by simp, serving := by simp, alive := fun _ hfailed hopen => ?_ }
  dsimp only at hfailed hopen
  simp [hfailed, hopen] at hbroken

theorem ConnOk.finish (h : ConnOk shutdown c) (hf : c.finish = some c') :
    ConnOk shutdown c' ∧ (c'.node = .waiting ↔ c.node = .waiting) ∧ c'.key = c.key := by
  obtain ⟨hserving, hf⟩ := Option.ite_none_right_eq_some.mp hf
  obtain rfl := Option.some.inj hf
  refine ⟨?_, by simp [hserving], rfl⟩
  exact { h with
    unserved := by simp
    serving := by simp
    alive := fun _ _ _ => .inr (h.serving hserving) }

theorem ConnOk.register (h : ConnOk shutdown c) (hf : c.register = some c') :
    ConnOk shutdown c' ∧ (c'.node = .waiting ↔ c.node = .waiting) ∧ c'.key = c.key := by
  obtain ⟨hrelay, hf⟩ := Option.ite_none_right_eq_some.mp hf
  obtain rfl := Option.some.inj hf
  refine ⟨{ h with asked := fun hserved => ?_, alive := fun hrun hfailed _ => ?_ }, Iff.rfl, rfl⟩
  · have hasked := h.asked hserved
    rw [hrelay] at hasked
    cases hasked
  · exact h.alive hrun hfailed (by rw [hrelay]; rfl)

theorem ConnOk.take (h : ConnOk shutdown c) (hf : c.take = some c') :
    ConnOk shutdown c' ∧ (c'.node = .waiting ↔ c.node = .waiting) ∧ c'.key = c.key := by
  obtain ⟨hrelay, hf⟩ := Option.ite_none_right_eq_some.mp hf
  obtain rfl := Option.some.inj hf
  refine ⟨{ h with asked := fun _ => rfl, alive := fun hrun hfailed _ => ?_ }, Iff.rfl, rfl⟩
  exact h.alive hrun hfailed (by rw [hrelay]; rfl)

theorem ConnOk.drop (h : ConnOk shutdown c) (hf : c.drop = some c') :
    ConnOk shutdown c' ∧ (c'.node = .waiting ↔ c.node = .waiting) ∧ c'.key = c.key := by
  obtain rfl := Option.some.inj hf
  exact ⟨{ h with asked := h.asked, alive := by simp [RelayEnd.isClosed] }, Iff.rfl, rfl⟩

theorem ConnOk.fail (h : ConnOk shutdown c) (hf : c.fail = some c') :
    ConnOk shutdown c' ∧ (c'.node = .waiting ↔ c.node = .waiting) ∧ c'.key = c.key := by
  obtain rfl := Option.some.inj hf
  exact ⟨{ h with alive := by simp }, Iff.rfl, rfl⟩

end Conn

theorem Sound.onConn {f : ReverseConn → Option ReverseConn} (hs : s.Sound poolSize)
    (h : s.onConn k f = some t)
    (hok : ∀ c c', ConnOk s.shutdown c → f c = some c' →
      ConnOk s.shutdown c' ∧ (c'.node = .waiting ↔ c.node = .waiting) ∧ c'.key = c.key) :
    t.Sound poolSize := by
  obtain ⟨c, c', hk, hf, rfl⟩ := onConn_cases h
  obtain ⟨hconn, hnode, hkey⟩ := hok c c' (hs.conns c (List.mem_of_getElem? hk)) hf
  exact hs.setConn hk hkey hnode hconn

theorem Sound.step (hs : s.Sound poolSize) (h : next poolSize s a = some t) :
    t.Sound poolSize := by
  cases a with
  | tick known =>
    cases h
    exact hs.spawned _
  | check i =>
    simp only [next] at h
    obtain ⟨key, hi, rfl⟩ := fromPhase_cases h
    refine hs.idle hi (by simp) (fun k => ?_) fun hstop => ?_
    · split_ifs <;> simp
    · by_contra hrun
      simp [hrun] at hstop
  | opened i =>
    simp only [next] at h
    obtain ⟨key, hi, rfl⟩ := fromPhase_cases h
    exact hs.opened hi
  | openFailed i =>
    simp only [next] at h
    obtain ⟨key, hi, rfl⟩ := fromPhase_cases h
    exact hs.idle hi (by simp) (by simp) (by simp)
  | receive i =>
    obtain ⟨key, k, c, c', hi, hk, hwait, hf, rfl⟩ := leave_cases hs h
    have hok := (hs.conns c (List.mem_of_getElem? hk)).receive hwait hf
    obtain ⟨-, hf⟩ := Option.ite_none_right_eq_some.mp hf
    exact hs.settle hi hk (by simp [← Option.some.inj hf]) (by simp) (by simp) hok
  | lost i =>
    obtain ⟨key, k, c, c', hi, hk, -, hf, rfl⟩ := leave_cases hs h
    have hok := (hs.conns c (List.mem_of_getElem? hk)).lost hf
    obtain ⟨-, hf⟩ := Option.ite_none_right_eq_some.mp hf
    exact hs.settle hi hk (by simp [← Option.some.inj hf]) (by simp) (by simp) hok
  | cancelled i =>
    obtain ⟨hshut, h⟩ := Option.ite_none_right_eq_some.mp h
    obtain ⟨key, k, c, c', hi, hk, -, hf, rfl⟩ := leave_cases hs h
    obtain rfl := Option.some.inj hf
    have hok := hs.conns c (List.mem_of_getElem? hk)
    exact hs.settle hi hk (by simp) (by simp) (by simp)
      { hok with unserved := by simp, serving := by simp, alive := by simp [hshut] }
  | wake i =>
    simp only [next] at h
    obtain ⟨key, hi, rfl⟩ := fromPhase_cases h
    exact hs.idle hi (by simp) (by simp) (by simp)
  | finish k => exact hs.onConn h fun _ _ hok hf => hok.finish hf
  | register k => exact hs.onConn h fun _ _ hok hf => hok.register hf
  | take k => exact hs.onConn h fun _ _ hok hf => hok.take hf
  | drop k => exact hs.onConn h fun _ _ hok hf => hok.drop hf
  | fail k => exact hs.onConn h fun _ _ hok hf => hok.fail hf
  | shutdown =>
    cases h
    exact { hs with
      running := by simp
      conns := fun c hc => { hs.conns c hc with alive := by simp } }

theorem sound_of_reachable (h : (system poolSize).Reachable s) : s.Sound poolSize := by
  refine h.invariant (I := Sound poolSize) ?_ fun _ _ _ hs hstep => hs.step hstep
  rintro s rfl
  exact ⟨by simp [start], by simp [start], by simp [start], by simp [start, WaitedOn],
    by simp [start]⟩

/-! ## The pool -/

theorem prefix_set_phase (hi : workers[i]? = some (key, old)) :
    workers.map Prod.fst <+: (workers.set i (key, phase)).map Prod.fst :=
  ⟨[], by rw [List.append_nil, map_fst_set hi]⟩

theorem keys_leave {f : ReverseConn → Option ReverseConn} (h : s.leave i phase f = some t) :
    s.workers.map Prod.fst <+: t.workers.map Prod.fst := by
  unfold leave at h
  split at h
  · next key k hi =>
    obtain ⟨c, -, h⟩ := Option.bind_eq_some_iff.mp h
    obtain ⟨c', -, rfl⟩ := Option.map_eq_some_iff.mp h
    exact prefix_set_phase hi
  · cases h

theorem keys_onConn {f : ReverseConn → Option ReverseConn} (h : s.onConn k f = some t) :
    s.workers.map Prod.fst <+: t.workers.map Prod.fst := by
  obtain ⟨c, c', -, -, rfl⟩ := onConn_cases h
  exact List.prefix_rfl

theorem keys_next (h : next poolSize s a = some t) :
    s.workers.map Prod.fst <+: t.workers.map Prod.fst := by
  cases a with
  | tick known =>
    cases h
    exact (foldl_spawn_spec _ s.workers).1.map Prod.fst
  | check i =>
    simp only [next] at h
    obtain ⟨key, hi, rfl⟩ := fromPhase_cases h
    exact prefix_set_phase hi
  | opened i =>
    simp only [next] at h
    obtain ⟨key, hi, rfl⟩ := fromPhase_cases h
    exact prefix_set_phase hi
  | openFailed i =>
    simp only [next] at h
    obtain ⟨key, hi, rfl⟩ := fromPhase_cases h
    exact prefix_set_phase hi
  | receive i => exact keys_leave h
  | lost i => exact keys_leave h
  | cancelled i => exact keys_leave (Option.ite_none_right_eq_some.mp h).2
  | wake i =>
    simp only [next] at h
    obtain ⟨key, hi, rfl⟩ := fromPhase_cases h
    exact prefix_set_phase hi
  | finish k => exact keys_onConn h
  | register k => exact keys_onConn h
  | take k => exact keys_onConn h
  | drop k => exact keys_onConn h
  | fail k => exact keys_onConn h
  | shutdown =>
    cases h
    exact List.prefix_rfl

theorem Sound.eq_of_waiting {k' : ℕ} (hs : s.Sound poolSize) (hk : s.conns[k]? = some c)
    (hk' : s.conns[k']? = some c') (hwait : c.node = .waiting) (hwait' : c'.node = .waiting)
    (hkey : c.key = c'.key) : k = k' := by
  have hmem := (hs.waits c.key k).mpr ⟨c, hk, rfl, hwait⟩
  have hmem' := (hs.waits c.key k').mpr ⟨c', hk', hkey.symm, hwait'⟩
  have hsame := List.inj_on_of_nodup_map hs.nodup hmem hmem' rfl
  exact WorkerPhase.waiting.inj (Prod.mk.inj hsame).2

theorem Sound.length_waiting_le (hs : s.Sound poolSize) (addr : String) :
    (s.conns.filter fun c => c.key.1 = addr ∧ c.node = .waiting).length ≤ poolSize := by
  have hapart : s.conns.Pairwise fun c c' => decide (c.key.1 = addr ∧ c.node = .waiting) = true →
      decide (c'.key.1 = addr ∧ c'.node = .waiting) = true → c.key.2 ≠ c'.key.2 := by
    rw [List.pairwise_iff_getElem]
    intro k k' hk hk' hlt hc hc' hslot
    obtain ⟨haddr, hwait⟩ := of_decide_eq_true hc
    obtain ⟨haddr', hwait'⟩ := of_decide_eq_true hc'
    have heq := hs.eq_of_waiting (List.getElem?_eq_getElem hk) (List.getElem?_eq_getElem hk') hwait
      hwait' (Prod.ext (haddr.trans haddr'.symm) hslot)
    omega
  have hnodup : ((s.conns.filter fun c => c.key.1 = addr ∧ c.node = .waiting).map
      fun c => c.key.2).Nodup := List.pairwise_map.mpr (List.pairwise_filter.mpr hapart)
  have hslots : ((s.conns.filter fun c => c.key.1 = addr ∧ c.node = .waiting).map
      fun c => c.key.2) ⊆ List.range poolSize := by
    intro slot hslot
    obtain ⟨c, hc, rfl⟩ := List.mem_map.mp hslot
    obtain ⟨hmem, hc⟩ := List.mem_filter.mp hc
    obtain ⟨k, hk⟩ := List.mem_iff_getElem?.mp hmem
    have hw := (hs.waits c.key k).mpr ⟨c, hk, rfl, (of_decide_eq_true hc).2⟩
    exact List.mem_range.mpr (hs.slots _ hw)
  have hle := (List.subperm_of_subset hnodup hslots).length_le
  simpa using hle

/-- A node never waits on more connections to a relay than its pool has, and each of them carries
at most one tunnel, which the relay asked for. Until the node shuts down, each connection in the
pool of a relay that has not broken is waited on, and a request sent on it can be received; and a
peer that was seen once keeps all its workers. -/
theorem reverse_pool_exact (h : (system poolSize).Reachable s) :
    (∀ addr, (s.conns.filter fun c => c.key.1 = addr ∧ c.node = .waiting).length ≤ poolSize) ∧
    (∀ c ∈ s.conns, c.served ≤ 1 ∧ (c.served = 1 → c.relay.hasAsked = true)) ∧
    (s.shutdown = false → ∀ (k : ℕ) (c : ReverseConn), s.conns[k]? = some c → c.failed = false →
      (c.relay = .idle → c.node = .waiting) ∧
      (c.relay = .asked → c.served = 0 → ∃ i t, next poolSize s (.receive i) = some t ∧
        ∃ c' : ReverseConn, t.conns[k]? = some c' ∧ c'.node = .serving ∧ c'.served = 1)) ∧
    ∀ known t u, next poolSize s (.tick known) = some t → (system poolSize).Reaches t u →
      ∀ addr ∈ relayAddrs known, ∀ slot < poolSize, ∃ phase,
        ((addr, slot), phase) ∈ u.workers ∧ (u.shutdown = false → phase ≠ .stopped) := by
  have hs := sound_of_reachable h
  refine ⟨hs.length_waiting_le, fun c hc => ?_, fun hrun k c hk hfailed => ?_, ?_⟩
  · exact ⟨(hs.conns c hc).once, (hs.conns c hc).asked⟩
  · have hok := hs.conns c (List.mem_of_getElem? hk)
    constructor
    · intro hidle
      rcases hok.alive hrun hfailed (by rw [hidle]; rfl) with hwait | hserved
      · exact hwait
      · have hasked := hok.asked hserved
        rw [hidle] at hasked
        cases hasked
    · intro hasked hzero
      have hwait : c.node = .waiting := by
        refine (hok.alive hrun hfailed (by rw [hasked]; rfl)).resolve_right fun hone => ?_
        omega
      obtain ⟨i, hi⟩ := List.mem_iff_getElem?.mp ((hs.waits c.key k).mpr ⟨c, hk, rfl, hwait⟩)
      obtain ⟨hlt, -⟩ := List.getElem?_eq_some_iff.mp hk
      have hreceive : c.receive = some { c with node := .serving, served := c.served + 1 } := by
        simp [ReverseConn.receive, hasked, RelayEnd.hasAsked]
      have hstep : next poolSize s (.receive i) = some ((s.setPhase i c.key .checking).setConn k
          { c with node := .serving, served := c.served + 1 }) := by
        simp only [next, leave, hi, hk, Option.bind_some, hreceive, Option.map_some]
      exact ⟨i, _, hstep, _, List.getElem?_set_self hlt, rfl, by simp [hzero]⟩
  · intro known t u htick hreach addr haddr slot hslot
    have hu := sound_of_reachable ((h.snoc (S := system poolSize) htick).trans hreach)
    have hkeys : t.workers.map Prod.fst <+: u.workers.map Prod.fst :=
      hreach.preserves (I := fun u => t.workers.map Prod.fst <+: u.workers.map Prod.fst)
        (fun _ _ _ hpre hstep => hpre.trans (keys_next hstep)) List.prefix_rfl
    cases htick
    have hmem : (addr, slot) ∈
        (spawnAll poolSize (relayAddrs known) s.workers).map Prod.fst := by
      refine (foldl_spawn_spec _ s.workers).2.1 _ ?_
      simp only [List.mem_flatMap, List.mem_map, List.mem_range]
      exact ⟨addr, haddr, slot, hslot, rfl⟩
    obtain ⟨⟨key, phase⟩, hw, rfl⟩ := List.mem_map.mp (hkeys.subset hmem)
    exact ⟨phase, hw, fun hrun => hu.running hrun _ hw⟩

/-- One peer, and a relay that has sent a request on the first of two connections. -/
def askedOnce : ReversePool :=
  Transition.run (next 2) start
    [.tick ((∅ : NodeMap).insert "r" ⟨"r", "10.0.0.1:80", none, none, .default⟩), .check 0,
      .opened 0, .check 1, .opened 1, .register 0, .register 1, .take 0]

theorem reverse_pool_exact_askedOnce :
    askedOnce.conns.length = 2 ∧ ∃ i t, next 2 askedOnce (.receive i) = some t ∧
      ∃ c' : ReverseConn, t.conns[0]? = some c' ∧ c'.node = .serving ∧ c'.served = 1 := by
  have hr : (system 2).Reachable askedOnce := ⟨_, rfl, Transition.reaches_run rfl⟩
  obtain ⟨-, -, hrunning, -⟩ := reverse_pool_exact hr
  obtain ⟨-, hreceived⟩ := hrunning rfl 0 ⟨("10.0.0.1:80", 0), .waiting, .asked, false, 0⟩ rfl rfl
  exact ⟨rfl, hreceived rfl rfl⟩

end ReversePool

end Stouter
