import Stouter.Node.Tunnels
import Stouter.Subscribe.WarmPool

/-! # Establishing tunnels

`establish_tunnel` uses the first connection that it gets to a node: a stream of
the mux session, a reverse connection, a warm one, or else one that it waits for
or dials. Any number of calls run at once over two pools, which registrations and
`fill_tunnel_pool` fill and from which relayed tunnels take as well. A call sends
its request on one connection and never on a second one.
-/

namespace Stouter

/-- How a connection was got, as the metrics name it. -/
inductive TunnelMethod
  | mux
  | reverse
  | pool
  | cold
  deriving DecidableEq, Repr

def TunnelMethod.key (node : NodeInfo) : TunnelMethod → String
  | .reverse => node.id
  | _ => node.connectAddr

/-- A connection to a node, with the address it was opened to or, for a reverse connection, the
node that registered it. -/
structure TunnelConn where
  method : TunnelMethod
  key : String
  deriving DecidableEq, Repr

inductive EstablishErr
  | beforeEpoch
  | noReverse (nodeId : String)
  | connect (addr : String)
  | tlsConnect (addr : String)
  | check (err : TunnelErr)
  deriving DecidableEq, Repr

def EstablishErr.display : EstablishErr → String
  | .beforeEpoch => "system time before Unix epoch"
  | .noReverse nodeId => s!"node {nodeId} not reachable: no address and no reverse connections"
  | .connect addr => s!"connect to {addr}"
  | .tlsConnect addr => s!"TLS connect to {addr}"
  | .check err => err.display

/-- Where a call stands: at `open_stream` of the mux pool, at `try_take` of one of the other pools,
in `take` of the reverse pool, connecting, in `send_and_check_tunnel`, or at its end. -/
inductive EstablishPhase
  | mux
  | reverse
  | pool
  | waiting
  | dialing
  | checking
  | ended (result : Except EstablishErr Link)
  | dropped

/-- A call of `establish_tunnel`, with the methods that gave it no connection and the connection
that it got. -/
structure EstablishCall where
  node : NodeInfo
  serviceName : String
  timestampMs : UInt64
  missed : List TunnelMethod
  conn : Option ℕ
  phase : EstablishPhase

namespace EstablishCall

def request (c : EstablishCall) : Message :=
  .tunnelRequest c.node.id c.serviceName c.timestampMs

def start (node : NodeInfo) (serviceName : String) : Option UInt64 → EstablishCall
  | none => ⟨node, serviceName, 0, [], none, .ended (.error .beforeEpoch)⟩
  | some now =>
    ⟨node, serviceName, now, [], none, if node.connectAddr.isEmpty then .reverse else .mux⟩

def got (c : EstablishCall) (n : ℕ) : EstablishCall := { c with conn := some n, phase := .checking }

def miss (c : EstablishCall) (method : TunnelMethod) (phase : EstablishPhase) : EstablishCall :=
  { c with missed := c.missed ++ [method], phase }

def running (c : EstablishCall) : Bool :=
  match c.phase with
  | .ended _ => false
  | .dropped => false
  | _ => true

end EstablishCall

/-- `StreamPool::try_take`, with the connection it gives. -/
def StreamPool.tryTake {τ : Type} (s : StreamPool τ) (key : String) :
    Option (τ × StreamPool τ) :=
  (s.idle key).getLast?.bind fun stream => (s.next (.tryTake key)).map fun t => (stream, t)

/-- The reverse pool and the tunnel pool of a daemon, every connection it has had, the calls, and
the connections that others have taken from the pools. A connection is known by its number. -/
structure Establishing where
  reverse : StreamPool ℕ
  tunnel : StreamPool ℕ
  conns : List TunnelConn
  calls : List EstablishCall
  others : List ℕ

inductive CallAct
  | openStream (opened : Bool)
  | tryReverse
  | tryPool
  | collect
  | giveUp
  | dial (tcp tls : Bool)
  | check (stream : Link)
  | cancel

inductive EstablishAct
  | call (node : NodeInfo) (serviceName : String) (now : Option UInt64)
  | goOn (i : ℕ) (a : CallAct)
  | register (nodeId : String)
  | warm (addr : String)
  | useReverse (a : PoolAct ℕ)
  | useTunnel (a : PoolAct ℕ)

namespace Establishing

def setCall (s : Establishing) (i : ℕ) (c : EstablishCall) : Establishing :=
  { s with calls := s.calls.set i c }

def openConn (s : Establishing) (i : ℕ) (c : EstablishCall) (method : TunnelMethod) :
    Establishing :=
  { s.setCall i (c.got s.conns.length) with conns := s.conns ++ [⟨method, c.node.connectAddr⟩] }

def takeReverse (s : Establishing) (i : ℕ) (c : EstablishCall) : Option Establishing :=
  (s.reverse.tryTake c.node.id).map fun p => { s.setCall i (c.got p.1) with reverse := p.2 }

def takeTunnel (s : Establishing) (i : ℕ) (c : EstablishCall) : Option Establishing :=
  (s.tunnel.tryTake c.node.connectAddr).map fun p =>
    { s.setCall i (c.got p.1) with tunnel := p.2 }

/-- The call of this index up to its next use of a pool or its next await. -/
def goOn (rmp : RmpSerde) (s : Establishing) (i : ℕ) (c : EstablishCall) :
    CallAct → Option Establishing
  | .openStream opened =>
    match c.phase with
    | .mux =>
      if opened then some (s.openConn i c .mux) else some (s.setCall i (c.miss .mux .reverse))
    | _ => none
  | .tryReverse =>
    match c.phase with
    | .reverse => (s.takeReverse i c).or (some (s.setCall i (c.miss .reverse .pool)))
    | _ => none
  | .tryPool =>
    match c.phase with
    | .pool =>
      let phase := if c.node.connectAddr.isEmpty then .waiting else .dialing
      (s.takeTunnel i c).or (some (s.setCall i (c.miss .pool phase)))
    | _ => none
  -- A notification only makes a call that waits look at the pool once more.
  | .collect =>
    match c.phase with
    | .waiting => s.takeReverse i c
    | _ => none
  | .giveUp =>
    match c.phase with
    | .waiting => some (s.setCall i (c.miss .reverse (.ended (.error (.noReverse c.node.id)))))
    | _ => none
  | .dial tcp tls =>
    match c.phase with
    | .dialing =>
      let addr := c.node.connectAddr
      if !tcp then some (s.setCall i (c.miss .cold (.ended (.error (.connect addr)))))
      else if !tls then some (s.setCall i (c.miss .cold (.ended (.error (.tlsConnect addr)))))
      else some (s.openConn i c .cold)
    | _ => none
  | .check stream =>
    match c.phase with
    | .checking =>
      match sendAndCheckTunnel rmp c.request stream with
      | (.ok (), link) => some (s.setCall i { c with phase := .ended (.ok link) })
      | (.error err, _) => some (s.setCall i { c with phase := .ended (.error (.check err)) })
    | _ => none
  -- The caller drops the call, which closes the connection it may have.
  | .cancel => if c.running then some (s.setCall i { c with phase := .dropped }) else none

/-- `handle_reverse_registration` and `fill_tunnel_pool` alone put connections into the pools. -/
def next (rmp : RmpSerde) (s : Establishing) : EstablishAct → Option Establishing
  | .call node serviceName now =>
    some { s with calls := s.calls ++ [.start node serviceName now] }
  | .goOn i a => s.calls[i]?.bind fun c => s.goOn rmp i c a
  | .register nodeId =>
    (s.reverse.next (.pushInsert nodeId s.conns.length)).map fun reverse =>
      { s with reverse, conns := s.conns ++ [⟨.reverse, nodeId⟩] }
  | .warm addr =>
    if addr.isEmpty then none
    else (s.tunnel.next (.pushInsert addr s.conns.length)).map fun tunnel =>
      { s with tunnel, conns := s.conns ++ [⟨.pool, addr⟩] }
  | .useReverse a =>
    if a.inserts then none else (s.reverse.next a).map fun reverse =>
      { s with reverse, others := reverse.takenSince s.reverse ++ s.others }
  | .useTunnel a =>
    if a.inserts then none else (s.tunnel.next a).map fun tunnel =>
      { s with tunnel, others := tunnel.takenSince s.tunnel ++ s.others }

def start : Establishing := ⟨.new, .new, [], [], []⟩

def system (rmp : RmpSerde) : Transition Establishing EstablishAct :=
  .ofNext (· = start) (next rmp)

/-- How often a connection has been got by a call or taken by others. -/
def uses (s : Establishing) (n : ℕ) : ℕ :=
  s.calls.countP (fun c => c.conn == some n) + s.others.count n

end Establishing

/-! ## Taking and inserting -/

namespace StreamPool

variable {p q : StreamPool ℕ} {k : String} {n : ℕ}

theorem tryTake_spec (h : p.tryTake k = some (n, q)) :
    p.next (.tryTake k) = some q ∧ n ∈ p.idle k ∧ q.takenSince p = [n] := by
  obtain ⟨stream, hlast, h⟩ := Option.bind_eq_some_iff.mp h
  obtain ⟨pool, hnext, h⟩ := Option.map_eq_some_iff.mp h
  cases h
  refine ⟨hnext, List.mem_of_getLast? hlast, ?_⟩
  simp only [next, hlast] at hnext
  obtain rfl := Option.some.inj hnext
  exact takenSince_of_cons rfl

theorem count_pushInsert (h : p.next (.pushInsert k n) = some q) (k' : String) (m : ℕ) :
    (q.idle k').count m ≤ (p.idle k').count m + if n = m then 1 else 0 := by
  obtain rfl := Option.some.inj h
  rw [idle, idle_insert]
  split_ifs with hk hn
  · subst hk
    rw [List.count_append, List.count_singleton, hn, if_pos (beq_self_eq_true m)]
  · subst hk
    rw [List.count_append, List.count_singleton, if_neg (by simpa using hn)]
  · exact Nat.le_add_right _ _
  · exact Nat.le_refl _

end StreamPool

/-! ## The order of the methods -/

/-- The methods for a node in the order in which a call tries them. -/
def NodeInfo.methods (node : NodeInfo) : List TunnelMethod :=
  if node.connectAddr = "" then [.reverse, .pool, .reverse] else [.mux, .reverse, .pool, .cold]

/-- The phases of a call without a connection, with what it has missed. -/
inductive Looks (node : NodeInfo) : EstablishPhase → List TunnelMethod → Prop
  | mux (h : node.connectAddr ≠ "") : Looks node .mux []
  | reverse (h : node.connectAddr = "") : Looks node .reverse []
  | reverseNext (h : node.connectAddr ≠ "") : Looks node .reverse [.mux]
  | pool (h : node.connectAddr = "") : Looks node .pool [.reverse]
  | poolNext (h : node.connectAddr ≠ "") : Looks node .pool [.mux, .reverse]
  | waiting (h : node.connectAddr = "") : Looks node .waiting [.reverse, .pool]
  | dialing (h : node.connectAddr ≠ "") : Looks node .dialing [.mux, .reverse, .pool]

def EstablishPhase.method? : EstablishPhase → Option TunnelMethod
  | .mux => some .mux
  | .reverse => some .reverse
  | .pool => some .pool
  | .waiting => some .reverse
  | .dialing => some .cold
  | _ => none

section Looks

variable {node : NodeInfo} {phase : EstablishPhase} {missed : List TunnelMethod}
  {method : TunnelMethod}

theorem Looks.order (h : Looks node phase missed) (hm : phase.method? = some method) :
    missed ++ [method] <+: node.methods := by
  unfold NodeInfo.methods
  cases h with
  | mux h | reverseNext h | poolNext h | dialing h =>
    obtain rfl := Option.some.inj hm
    rw [if_neg h]
    decide
  | reverse h | pool h | waiting h =>
    obtain rfl := Option.some.inj hm
    rw [if_pos h]
    decide

theorem Looks.start (node : NodeInfo) :
    Looks node (if node.connectAddr.isEmpty then .reverse else .mux) [] := by
  by_cases h : node.connectAddr = ""
  · rw [if_pos (String.isEmpty_iff.mpr h)]
    exact .reverse h
  · rw [if_neg fun he => h (String.isEmpty_iff.mp he)]
    exact .mux h

theorem Looks.missMux (h : Looks node .mux missed) : Looks node .reverse (missed ++ [.mux]) := by
  cases h with
  | mux h => exact .reverseNext h

theorem Looks.missReverse (h : Looks node .reverse missed) :
    Looks node .pool (missed ++ [.reverse]) := by
  cases h with
  | reverse h => exact .pool h
  | reverseNext h => exact .poolNext h

theorem Looks.missPool (h : Looks node .pool missed) :
    Looks node (if node.connectAddr.isEmpty then .waiting else .dialing) (missed ++ [.pool]) := by
  cases h with
  | pool h =>
    rw [if_pos (String.isEmpty_iff.mpr h)]
    exact .waiting h
  | poolNext h =>
    rw [if_neg fun he => h (String.isEmpty_iff.mp he)]
    exact .dialing h

theorem Looks.missWaiting (h : Looks node .waiting missed) :
    node.connectAddr = "" ∧ missed ++ [.reverse] = node.methods := by
  cases h with
  | waiting h => exact ⟨h, by simp [NodeInfo.methods, h]⟩

theorem Looks.missDialing (h : Looks node .dialing missed) :
    node.connectAddr ≠ "" ∧ missed ++ [.cold] = node.methods := by
  cases h with
  | dialing h => exact ⟨h, by simp [NodeInfo.methods, h]⟩

end Looks

/-! ## What a call can be sure of -/

namespace EstablishCall

/-- The connection was got by the first method that gave one, and leads to the node. -/
def Got (conns : List TunnelConn) (c : EstablishCall) (n : ℕ) : Prop :=
  ∃ conn, conns[n]? = some conn ∧ c.missed ++ [conn.method] <+: c.node.methods ∧
    conn.key = conn.method.key c.node

/-- Why a call fails: the clock, every method in turn, or the answer on the connection it got. -/
def Fails (rmp : RmpSerde) (c : EstablishCall) : EstablishErr → Prop
  | .beforeEpoch => c.missed = [] ∧ c.conn = none
  | .noReverse nodeId =>
    nodeId = c.node.id ∧ c.node.connectAddr = "" ∧ c.missed = c.node.methods ∧ c.conn = none
  | .connect addr | .tlsConnect addr =>
    addr = c.node.connectAddr ∧ addr ≠ "" ∧ c.missed = c.node.methods ∧ c.conn = none
  | .check err =>
    c.conn.isSome = true ∧ ∃ stream, (sendAndCheckTunnel rmp c.request stream).1 = .error err

structure Ok (rmp : RmpSerde) (conns : List TunnelConn) (c : EstablishCall) : Prop where
  looks : c.phase.method?.isSome = true → c.conn = none ∧ Looks c.node c.phase c.missed
  got : ∀ n, c.conn = some n → c.Got conns n
  checks : c.phase = .checking → c.conn.isSome = true
  opened : ∀ link, c.phase = .ended (.ok link) → c.conn.isSome = true ∧
    ∃ stream, sendAndCheckTunnel rmp c.request stream = (.ok (), link)
  fails : ∀ err, c.phase = .ended (.error err) → c.Fails rmp err

variable {rmp : RmpSerde} {conns : List TunnelConn} {c : EstablishCall} {n : ℕ} {conn : TunnelConn}
  {method : TunnelMethod} {phase : EstablishPhase} {err : EstablishErr}

theorem Got.append (h : c.Got conns n) (conn : TunnelConn) : c.Got (conns ++ [conn]) n := by
  obtain ⟨conn', hconn, h⟩ := h
  refine ⟨conn', ?_, h⟩
  rwa [List.getElem?_append_left (List.getElem?_eq_some_iff.mp hconn).1]

theorem Ok.append (h : c.Ok rmp conns) (conn : TunnelConn) : c.Ok rmp (conns ++ [conn]) :=
  { h with got := fun n hn => (h.got n hn).append conn }

theorem Ok.looksAt (h : c.Ok rmp conns) (hphase : c.phase = phase)
    (hm : phase.method? = some method) :
    c.conn = none ∧ Looks c.node phase c.missed := by
  have hlooks := h.looks (by rw [hphase, hm, Option.isSome_some])
  rwa [hphase] at hlooks

theorem ok_of_looks (hconn : c.conn = none) (hlooks : Looks c.node c.phase c.missed) :
    c.Ok rmp conns := by
  refine ⟨fun _ => ⟨hconn, hlooks⟩, ?_, ?_, ?_, ?_⟩
  · intro n hn
    rw [hconn] at hn
    cases hn
  · intro h
    rw [h] at hlooks
    cases hlooks
  · intro link h
    rw [h] at hlooks
    cases hlooks
  · intro err h
    rw [h] at hlooks
    cases hlooks

theorem ok_of_fails (hconn : c.conn = none) (hphase : c.phase = .ended (.error err))
    (hfails : c.Fails rmp err) : c.Ok rmp conns := by
  refine ⟨?_, ?_, ?_, ?_, ?_⟩
  · intro h
    rw [hphase] at h
    cases h
  · intro n hn
    rw [hconn] at hn
    cases hn
  · intro h
    rw [hphase] at h
    cases h
  · intro link h
    rw [hphase] at h
    cases h
  · intro err' h
    rw [hphase] at h
    cases h
    exact hfails

theorem ok_start (node : NodeInfo) (serviceName : String) (now : Option UInt64) :
    (start node serviceName now).Ok rmp conns := by
  cases now with
  | none => exact ok_of_fails rfl rfl ⟨rfl, rfl⟩
  | some now => exact ok_of_looks rfl (Looks.start node)

theorem ok_got (hgot : (c.got n).Got conns n) : (c.got n).Ok rmp conns := by
  refine ⟨?_, ?_, fun _ => rfl, ?_, ?_⟩
  · intro h
    cases h
  · intro m hm
    obtain rfl := Option.some.inj hm
    exact hgot
  · intro link h
    cases h
  · intro err h
    cases h

theorem Ok.leave (h : c.Ok rmp conns) (hm : phase.method? = none) (hp : phase ≠ .checking)
    (hopened : ∀ link, phase = .ended (.ok link) → c.conn.isSome = true ∧
      ∃ stream, sendAndCheckTunnel rmp c.request stream = (.ok (), link))
    (hfails : ∀ err, phase = .ended (.error err) → c.Fails rmp err) :
    Ok rmp conns { c with phase } := by
  refine ⟨fun hl => ?_, h.got, fun hc => absurd hc hp, hopened, hfails⟩
  rw [hm] at hl
  cases hl

end EstablishCall

/-! ## The pools and the calls -/

namespace Establishing

variable {rmp : RmpSerde} {s t : Establishing} {c c' : EstablishCall} {i n m : ℕ} {a : CallAct}
  {k : String} {method : TunnelMethod} {conn : TunnelConn}

def keyOf (conns : List TunnelConn) (method : TunnelMethod) (n : ℕ) : Option String :=
  conns[n]?.bind fun conn => if conn.method = method then some conn.key else none

theorem keyOf_eq_some {conns : List TunnelConn} :
    keyOf conns method n = some k ↔ conns[n]? = some ⟨method, k⟩ := by
  rw [keyOf, Option.bind_eq_some_iff]
  constructor
  · rintro ⟨⟨method', k'⟩, hconn, hk⟩
    split_ifs at hk with hm
    obtain rfl := Option.some.inj hk
    rw [← hm]
    exact hconn
  · intro hconn
    exact ⟨_, hconn, if_pos rfl⟩

theorem keyOf_append {conns : List TunnelConn} (h : keyOf conns method n = some k) :
    keyOf (conns ++ [conn]) method n = some k := by
  rw [keyOf_eq_some] at h ⊢
  rwa [List.getElem?_append_left (List.getElem?_eq_some_iff.mp h).1]

/-- The pools hold numbered connections, none of them warm to an empty address; every call is as it
must be; others have only had connections of the pools; and no connection is idle in two pools, used
twice, or idle and used. -/
structure Sound (rmp : RmpSerde) (s : Establishing) : Prop where
  reverse : s.reverse.Numbered (keyOf s.conns .reverse)
  tunnel : s.tunnel.Numbered (keyOf s.conns .pool)
  warm : ⟨.pool, ""⟩ ∉ s.conns
  calls : ∀ c ∈ s.calls, c.Ok rmp s.conns
  others : ∀ n ∈ s.others, n < s.conns.length
  alone : ∀ k k' n, (s.reverse.idle k).count n + (s.tunnel.idle k').count n + s.uses n ≤ 1

theorem sound_start : start.Sound rmp := by
  constructor
  · exact StreamPool.numbered_new _
  · exact StreamPool.numbered_new _
  · simp [start]
  · simp [start]
  · simp [start]
  · simp [start, StreamPool.new, StreamPool.idle, uses]

theorem uses_setCall (hi : s.calls[i]? = some c) (c' : EstablishCall) (n : ℕ) :
    (s.setCall i c').uses n + (if c.conn = some n then 1 else 0) =
      s.uses n + if c'.conn = some n then 1 else 0 := by
  obtain ⟨l₁, l₂, hl, hset, -⟩ := List.split_of_getElem? hi
  rw [uses, uses, setCall]
  dsimp only
  rw [hset, hl]
  simp only [List.countP_append, List.countP_cons, beq_iff_eq]
  omega

theorem uses_setCall_of_conn (hi : s.calls[i]? = some c) (hconn : c'.conn = c.conn) (n : ℕ) :
    (s.setCall i c').uses n = s.uses n := by
  have h := uses_setCall hi c' n
  rw [hconn] at h
  exact Nat.add_right_cancel h

theorem uses_got (hi : s.calls[i]? = some c) (hconn : c.conn = none) (m n : ℕ) :
    (s.setCall i (c.got m)).uses n = s.uses n + if m = n then 1 else 0 := by
  have h := uses_setCall hi (c.got m) n
  rw [hconn, if_neg (by simp)] at h
  simpa [EstablishCall.got] using h

theorem keyOf_length (conns : List TunnelConn) (method : TunnelMethod) :
    keyOf conns method conns.length = none := by
  rw [keyOf, List.getElem?_eq_none le_rfl, Option.bind_none]

theorem Sound.fresh (hs : s.Sound rmp) (k k' : String) :
    (s.reverse.idle k).count s.conns.length = 0 ∧
      (s.tunnel.idle k').count s.conns.length = 0 ∧ s.uses s.conns.length = 0 := by
  have hcalls : s.calls.countP (fun c => c.conn == some s.conns.length) = 0 := by
    refine List.countP_eq_zero.mpr fun c hc hheld => ?_
    obtain ⟨conn, hconn, -⟩ := (hs.calls c hc).got _ (by simpa using hheld)
    exact absurd (List.getElem?_eq_some_iff.mp hconn).1 (lt_irrefl _)
  have hothers : s.others.count s.conns.length = 0 :=
    List.count_eq_zero.mpr fun hmem => lt_irrefl _ (hs.others _ hmem)
  refine ⟨List.count_eq_zero.mpr fun hmem => ?_, List.count_eq_zero.mpr fun hmem => ?_, ?_⟩
  · have hkey := hs.reverse.key_of_idle hmem
    rw [keyOf_length] at hkey
    cases hkey
  · have hkey := hs.tunnel.key_of_idle hmem
    rw [keyOf_length] at hkey
    cases hkey
  · rw [uses, hcalls, hothers]

theorem ok_setCall {conns : List TunnelConn} (h : ∀ c ∈ s.calls, c.Ok rmp conns)
    (hc : c.Ok rmp conns) (i : ℕ) : ∀ d ∈ (s.setCall i c).calls, d.Ok rmp conns := by
  intro d hd
  rcases List.mem_or_eq_of_mem_set hd with hd | rfl
  · exact h d hd
  · exact hc

theorem lt_of_keyOf {conns : List TunnelConn} (h : keyOf conns method n = some k) :
    n < conns.length :=
  (List.getElem?_eq_some_iff.mp (keyOf_eq_some.mp h)).1

theorem lt_of_takenSince {conns : List TunnelConn} {p q : StreamPool ℕ}
    (hq : q.Numbered (keyOf conns method)) (hn : n ∈ q.takenSince p) : n < conns.length := by
  obtain ⟨r, hr, rfl⟩ := List.mem_map.mp hn
  exact lt_of_keyOf (hq.key_of_returned (List.mem_of_mem_take hr))

/-! A call of one pool sees a connection idle there, or else in the other pool or in use. -/

theorem Sound.alone_reverse (hs : s.Sound rmp) (k' : String) (n : ℕ) (k : String) :
    (s.reverse.idle k).count n + ((s.tunnel.idle k').count n + s.uses n) ≤ 1 := by
  rw [← Nat.add_assoc]
  exact hs.alone k k' n

theorem Sound.alone_tunnel (hs : s.Sound rmp) (k : String) (n : ℕ) (k' : String) :
    (s.tunnel.idle k').count n + ((s.reverse.idle k).count n + s.uses n) ≤ 1 := by
  rw [Nat.add_left_comm]
  exact hs.alone_reverse k' n k

theorem Sound.keep (hs : s.Sound rmp) (hi : s.calls[i]? = some c) (hconn : c'.conn = c.conn)
    (hok : c'.Ok rmp s.conns) : (s.setCall i c').Sound rmp := by
  refine { hs with calls := ok_setCall hs.calls hok i, alone := fun k k' n => ?_ }
  rw [uses_setCall_of_conn hi hconn]
  exact hs.alone k k' n

theorem Sound.add (hs : s.Sound rmp) (hreverse : t.reverse.Numbered (keyOf t.conns .reverse))
    (htunnel : t.tunnel.Numbered (keyOf t.conns .pool)) (hconns : t.conns = s.conns ++ [conn])
    (hconn : conn ≠ ⟨.pool, ""⟩) (hcalls : ∀ c ∈ t.calls, c.Ok rmp t.conns)
    (hothers : t.others = s.others)
    (hplaces : ∀ k k' n,
      (t.reverse.idle k).count n + (t.tunnel.idle k').count n + t.uses n ≤
        (s.reverse.idle k).count n + (s.tunnel.idle k').count n + s.uses n +
          if s.conns.length = n then 1 else 0) : t.Sound rmp := by
  refine ⟨hreverse, htunnel, ?_, hcalls, fun n hn => ?_, fun k k' n => ?_⟩
  · rw [hconns]
    simpa [eq_comm] using ⟨hs.warm, hconn⟩
  · rw [hothers] at hn
    rw [hconns, List.length_append]
    exact (hs.others n hn).trans_le (Nat.le_add_right _ _)
  · refine (hplaces k k' n).trans ?_
    by_cases hn : s.conns.length = n
    · subst hn
      obtain ⟨hr, ht, hu⟩ := hs.fresh k k'
      rw [hr, ht, hu, if_pos rfl]
    · rw [if_neg hn]
      exact hs.alone k k' n

theorem Sound.open (hs : s.Sound rmp) (hi : s.calls[i]? = some c)
    (hlooks : c.conn = none ∧ Looks c.node c.phase c.missed)
    (hm : c.phase.method? = some method) (hmethod : method = .mux ∨ method = .cold) :
    (s.openConn i c method).Sound rmp := by
  have hgot : (c.got s.conns.length).Got (s.conns ++ [⟨method, c.node.connectAddr⟩])
      s.conns.length := by
    refine ⟨_, List.getElem?_concat_length, hlooks.2.order hm, ?_⟩
    rcases hmethod with rfl | rfl <;> rfl
  refine hs.add (hs.reverse.mono fun n k => keyOf_append) (hs.tunnel.mono fun n k => keyOf_append)
    rfl ?_ (ok_setCall (fun d hd => (hs.calls d hd).append _) (EstablishCall.ok_got hgot) i) rfl
    fun k k' n => ?_
  · rcases hmethod with rfl | rfl <;> simp
  · change _ + _ + (s.setCall i _).uses n ≤ _
    rw [uses_got hi hlooks.1, ← Nat.add_assoc]
    exact Nat.le_refl _

theorem Sound.takeReverse (hs : s.Sound rmp) (hi : s.calls[i]? = some c)
    (hlooks : c.conn = none ∧ Looks c.node c.phase c.missed)
    (hm : c.phase.method? = some .reverse) (h : s.takeReverse i c = some t) : t.Sound rmp := by
  obtain ⟨⟨n, pool⟩, htake, rfl⟩ := Option.map_eq_some_iff.mp h
  obtain ⟨hnext, hmem, htaken⟩ := StreamPool.tryTake_spec htake
  have hgot : (c.got n).Got s.conns n :=
    ⟨_, keyOf_eq_some.mp (hs.reverse.key_of_idle hmem), hlooks.2.order hm, rfl⟩
  refine { hs with
    reverse := hs.reverse.call hnext rfl
    calls := ok_setCall hs.calls (EstablishCall.ok_got hgot) i
    alone := fun k k' m => ?_ }
  have hle := hs.reverse.alone_of_next hnext rfl (hs.alone_reverse k' m) k
  rw [htaken, List.count_singleton] at hle
  change (pool.idle k).count m + (s.tunnel.idle k').count m + (s.setCall i (c.got n)).uses m ≤ 1
  rw [uses_got hi hlooks.1]
  simp only [beq_iff_eq] at hle
  omega

theorem Sound.takeTunnel (hs : s.Sound rmp) (hi : s.calls[i]? = some c)
    (hlooks : c.conn = none ∧ Looks c.node c.phase c.missed)
    (hm : c.phase.method? = some .pool) (h : s.takeTunnel i c = some t) : t.Sound rmp := by
  obtain ⟨⟨n, pool⟩, htake, rfl⟩ := Option.map_eq_some_iff.mp h
  obtain ⟨hnext, hmem, htaken⟩ := StreamPool.tryTake_spec htake
  have hgot : (c.got n).Got s.conns n :=
    ⟨_, keyOf_eq_some.mp (hs.tunnel.key_of_idle hmem), hlooks.2.order hm, rfl⟩
  refine { hs with
    tunnel := hs.tunnel.call hnext rfl
    calls := ok_setCall hs.calls (EstablishCall.ok_got hgot) i
    alone := fun k k' m => ?_ }
  have hle := hs.tunnel.alone_of_next hnext rfl (hs.alone_tunnel k m) k'
  rw [htaken, List.count_singleton] at hle
  change (s.reverse.idle k).count m + (pool.idle k').count m + (s.setCall i (c.got n)).uses m ≤ 1
  rw [uses_got hi hlooks.1]
  simp only [beq_iff_eq] at hle
  omega

theorem Sound.goOn (hs : s.Sound rmp) (hi : s.calls[i]? = some c)
    (h : s.goOn rmp i c a = some t) : t.Sound rmp := by
  have hc := hs.calls c (List.mem_of_getElem? hi)
  cases a with
  | openStream opened =>
    simp only [Establishing.goOn] at h
    split at h
    · next hphase =>
      obtain ⟨hconn, hlooks⟩ := hc.looksAt hphase rfl
      split_ifs at h <;> obtain rfl := Option.some.inj h
      · exact hs.open hi ⟨hconn, hphase ▸ hlooks⟩ (by rw [hphase]; rfl) (.inl rfl)
      · exact hs.keep hi rfl (EstablishCall.ok_of_looks hconn hlooks.missMux)
    · cases h
  | tryReverse =>
    simp only [Establishing.goOn] at h
    split at h
    · next hphase =>
      obtain ⟨hconn, hlooks⟩ := hc.looksAt hphase rfl
      rcases Option.or_eq_some_iff.mp h with h | ⟨-, h⟩
      · exact hs.takeReverse hi ⟨hconn, hphase ▸ hlooks⟩ (by rw [hphase]; rfl) h
      · obtain rfl := Option.some.inj h
        exact hs.keep hi rfl (EstablishCall.ok_of_looks hconn hlooks.missReverse)
    · cases h
  | tryPool =>
    simp only [Establishing.goOn] at h
    split at h
    · next hphase =>
      obtain ⟨hconn, hlooks⟩ := hc.looksAt hphase rfl
      rcases Option.or_eq_some_iff.mp h with h | ⟨-, h⟩
      · exact hs.takeTunnel hi ⟨hconn, hphase ▸ hlooks⟩ (by rw [hphase]; rfl) h
      · obtain rfl := Option.some.inj h
        exact hs.keep hi rfl (EstablishCall.ok_of_looks hconn hlooks.missPool)
    · cases h
  | collect =>
    simp only [Establishing.goOn] at h
    split at h
    · next hphase =>
      obtain ⟨hconn, hlooks⟩ := hc.looksAt hphase rfl
      exact hs.takeReverse hi ⟨hconn, hphase ▸ hlooks⟩ (by rw [hphase]; rfl) h
    · cases h
  | giveUp =>
    simp only [Establishing.goOn] at h
    split at h
    · next hphase =>
      obtain ⟨hconn, hlooks⟩ := hc.looksAt hphase rfl
      obtain rfl := Option.some.inj h
      obtain ⟨haddr, hall⟩ := hlooks.missWaiting
      exact hs.keep hi rfl (EstablishCall.ok_of_fails hconn rfl ⟨rfl, haddr, hall, hconn⟩)
    · cases h
  | dial tcp tls =>
    simp only [Establishing.goOn] at h
    split at h
    · next hphase =>
      obtain ⟨hconn, hlooks⟩ := hc.looksAt hphase rfl
      obtain ⟨haddr, hall⟩ := hlooks.missDialing
      split_ifs at h <;> obtain rfl := Option.some.inj h
      · exact hs.keep hi rfl (EstablishCall.ok_of_fails hconn rfl ⟨rfl, haddr, hall, hconn⟩)
      · exact hs.keep hi rfl (EstablishCall.ok_of_fails hconn rfl ⟨rfl, haddr, hall, hconn⟩)
      · exact hs.open hi ⟨hconn, hphase ▸ hlooks⟩ (by rw [hphase]; rfl) (.inr rfl)
    · cases h
  | check stream =>
    simp only [Establishing.goOn] at h
    split at h
    · next hphase =>
      have hconn := hc.checks hphase
      split at h
      · next link hcheck =>
        obtain rfl := Option.some.inj h
        refine hs.keep hi rfl (hc.leave rfl nofun (fun link' hl => ?_) nofun)
        cases hl
        exact ⟨hconn, stream, hcheck⟩
      · next err link hcheck =>
        obtain rfl := Option.some.inj h
        refine hs.keep hi rfl (hc.leave rfl nofun nofun fun err' he => ?_)
        cases he
        exact ⟨hconn, stream, congrArg Prod.fst hcheck⟩
    · cases h
  | cancel =>
    simp only [Establishing.goOn] at h
    split_ifs at h
    obtain rfl := Option.some.inj h
    exact hs.keep hi rfl (hc.leave rfl nofun nofun nofun)

theorem Sound.register (hs : s.Sound rmp) {pool : StreamPool ℕ}
    (h : s.reverse.next (.pushInsert k s.conns.length) = some pool) :
    Sound rmp { s with reverse := pool, conns := s.conns ++ [⟨.reverse, k⟩] } := by
  have hreverse : pool.Numbered (keyOf (s.conns ++ [⟨.reverse, k⟩]) .reverse) :=
    hs.reverse.pushInsert h (keyOf_length _ _) (fun n k => keyOf_append)
      (keyOf_eq_some.mpr List.getElem?_concat_length)
  refine hs.add hreverse (hs.tunnel.mono fun n k => keyOf_append) rfl (by simp)
    (fun c hc => (hs.calls c hc).append _) rfl fun k₁ k₂ n => ?_
  have hcount := StreamPool.count_pushInsert h k₁ n
  change (pool.idle k₁).count n + (s.tunnel.idle k₂).count n + s.uses n ≤ _
  omega

theorem Sound.warmUp (hs : s.Sound rmp) {pool : StreamPool ℕ} (hk : k ≠ "")
    (h : s.tunnel.next (.pushInsert k s.conns.length) = some pool) :
    Sound rmp { s with tunnel := pool, conns := s.conns ++ [⟨.pool, k⟩] } := by
  have htunnel : pool.Numbered (keyOf (s.conns ++ [⟨.pool, k⟩]) .pool) :=
    hs.tunnel.pushInsert h (keyOf_length _ _) (fun n k => keyOf_append)
      (keyOf_eq_some.mpr List.getElem?_concat_length)
  refine hs.add (hs.reverse.mono fun n k => keyOf_append) htunnel rfl (by simpa using hk)
    (fun c hc => (hs.calls c hc).append _) rfl fun k₁ k₂ n => ?_
  have hcount := StreamPool.count_pushInsert h k₂ n
  change (s.reverse.idle k₁).count n + (pool.idle k₂).count n + s.uses n ≤ _
  omega

theorem Sound.call (hs : s.Sound rmp) (node : NodeInfo) (serviceName : String)
    (now : Option UInt64) :
    Sound rmp { s with calls := s.calls ++ [EstablishCall.start node serviceName now] } := by
  refine { hs with calls := fun c hc => ?_, alone := fun k k' n => ?_ }
  · rcases List.mem_append.mp hc with hc | hc
    · exact hs.calls c hc
    · obtain rfl := List.mem_singleton.mp hc
      exact EstablishCall.ok_start node serviceName now
  · have hnone : (EstablishCall.start node serviceName now).conn = Option.none := by
      cases now <;> rfl
    have huses : uses { s with calls := s.calls ++ [EstablishCall.start node serviceName now] } n =
        s.uses n := by
      rw [uses, List.countP_append, List.countP_singleton, hnone]
      rfl
    rw [huses]
    exact hs.alone k k' n

theorem Sound.useReverse {a : PoolAct ℕ} {pool : StreamPool ℕ} (hs : s.Sound rmp)
    (ha : a.inserts = false) (h : s.reverse.next a = some pool) :
    Sound rmp { s with reverse := pool, others := pool.takenSince s.reverse ++ s.others } := by
  have hpool := hs.reverse.call h ha
  refine { hs with reverse := hpool, others := fun n hn => ?_, alone := fun k k' n => ?_ }
  · rcases List.mem_append.mp hn with hn | hn
    · exact lt_of_takenSince hpool hn
    · exact hs.others n hn
  · have hle := hs.reverse.alone_of_next h ha (hs.alone_reverse k' n) k
    simp only [uses, List.count_append] at hle ⊢
    omega

theorem Sound.useTunnel {a : PoolAct ℕ} {pool : StreamPool ℕ} (hs : s.Sound rmp)
    (ha : a.inserts = false) (h : s.tunnel.next a = some pool) :
    Sound rmp { s with tunnel := pool, others := pool.takenSince s.tunnel ++ s.others } := by
  have hpool := hs.tunnel.call h ha
  refine { hs with tunnel := hpool, others := fun n hn => ?_, alone := fun k k' n => ?_ }
  · rcases List.mem_append.mp hn with hn | hn
    · exact lt_of_takenSince hpool hn
    · exact hs.others n hn
  · have hle := hs.tunnel.alone_of_next h ha (hs.alone_tunnel k n) k'
    simp only [uses, List.count_append] at hle ⊢
    omega

theorem Sound.step {a : EstablishAct} (hs : s.Sound rmp) (h : (system rmp).step s a t) :
    t.Sound rmp := by
  simp only [system, Transition.ofNext] at h
  cases a with
  | call node serviceName now =>
    obtain rfl := Option.some.inj h
    exact hs.call node serviceName now
  | goOn i a =>
    obtain ⟨c, hi, h⟩ := Option.bind_eq_some_iff.mp h
    exact hs.goOn hi h
  | register nodeId =>
    rw [next] at h
    obtain ⟨pool, hpool, rfl⟩ := Option.map_eq_some_iff.mp h
    exact hs.register hpool
  | warm addr =>
    obtain ⟨haddr, h⟩ := Option.ite_none_left_eq_some.mp h
    obtain ⟨pool, hpool, rfl⟩ := Option.map_eq_some_iff.mp h
    exact hs.warmUp (fun he => haddr (String.isEmpty_iff.mpr he)) hpool
  | useReverse a =>
    obtain ⟨ha, h⟩ := Option.ite_none_left_eq_some.mp h
    obtain ⟨pool, hpool, rfl⟩ := Option.map_eq_some_iff.mp h
    exact hs.useReverse (by simpa using ha) hpool
  | useTunnel a =>
    obtain ⟨ha, h⟩ := Option.ite_none_left_eq_some.mp h
    obtain ⟨pool, hpool, rfl⟩ := Option.map_eq_some_iff.mp h
    exact hs.useTunnel (by simpa using ha) hpool

theorem sound_of_reachable (h : (system rmp).Reachable s) : s.Sound rmp := by
  refine h.invariant (I := Sound rmp) ?_ fun _ _ _ hs hstep => hs.step hstep
  rintro s rfl
  exact sound_start

end Establishing

end Stouter
