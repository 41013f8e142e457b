import Stouter.Gossip.Routability

/-! # Nodes behind NAT

An outbound-only node lists itself without an address. What makes it reachable
is the relay that a daemon enters when it accepts a reverse registration, and
that gossip then spreads. Address and relay carry no version: a copy without
relay replaces a relay only if it has an address, and no copy of the entry of
such a node ever has one.
-/

namespace Stouter

/-- The cluster with the daemons that accepted a reverse registration of a node. -/
structure Relaying (ι : Type*) where
  cluster : Cluster ι
  accepted : List ι

/-! ## A relay that is set stays set -/

def HasRelay (x : String) (kn : NodeMap) : Prop :=
  ∃ node, kn.lookup x = some node ∧ node.relay.isSome

section HasRelay

variable {x ownId : String} {kn : NodeMap} {now : Instant}

theorem hasRelay_mergeNode {acc : NodeMap × Bool} {node : NodeInfo} (h : HasRelay x acc.1)
    (hn : node.id = x → node.addr = "") : HasRelay x (mergeNode ownId now acc node).1 := by
  obtain ⟨existing, hl, hr⟩ := h
  unfold HasRelay
  rw [lookup_mergeNode]
  split_ifs with hc
  · have haddr : (received ownId node).addr = "" := by
      unfold received
      split_ifs <;> exact hn hc.2
    refine ⟨mergeEntry existing (received ownId node), by rw [hl]; rfl, ?_⟩
    rw [mergeEntry_relay]
    split_ifs with hnew
    · exact hnew.resolve_right (absurd haddr)
    · exact hr
  · exact ⟨existing, hl, hr⟩

theorem hasRelay_mapValues {f : String → NodeInfo → NodeInfo} (h : HasRelay x kn)
    (hf : ∀ id node, (f id node).relay = node.relay) : HasRelay x (HashMap.mapValues f kn) := by
  obtain ⟨node, hl, hr⟩ := h
  refine ⟨f x node, by rw [HashMap.lookup_mapValues, hl]; rfl, ?_⟩
  rw [hf]
  exact hr

theorem hasRelay_mergeNodes {nodes : List NodeInfo} (contactAddr : Option String)
    (h : HasRelay x kn) (hn : ∀ node ∈ nodes, node.id = x → node.addr = "") :
    HasRelay x (mergeNodes ownId nodes contactAddr now kn).1 := by
  have hfold : ∀ acc : NodeMap × Bool, HasRelay x acc.1 →
      HasRelay x (nodes.foldl (mergeNode ownId now) acc).1 := by
    induction nodes with
    | nil => exact fun _ h => h
    | cons node nodes ih =>
      intro acc hacc
      apply ih fun n hmem => hn n (List.mem_cons_of_mem _ hmem)
      exact hasRelay_mergeNode hacc (hn node List.mem_cons_self)
  unfold mergeNodes
  cases contactAddr with
  | none => exact hfold (kn, false) h
  | some addr =>
    apply hasRelay_mapValues (hfold (kn, false) h)
    intro _ node
    split_ifs <;> rfl

theorem hasRelay_applyControl {d : Daemon} {msg : Message} (h : HasRelay x d.knownNodes)
    (hjoin : ∀ addr, msg ≠ .nodeJoin x addr) (hleave : msg ≠ .nodeLeave x) (now : Instant) :
    HasRelay x (Cluster.applyControl d now msg) := by
  obtain ⟨node, hl, hr⟩ := h
  cases msg with
  | nodeJoin id addr =>
    have hne : x ≠ id := fun hid => hjoin addr (by rw [hid])
    refine ⟨node, ?_, hr⟩
    exact (lookup_applyNodeJoin id addr now d.knownNodes x).trans
      ((if_neg fun h => hne h.2).trans hl)
  | nodeLeave id =>
    have hne : x ≠ id := fun hid => hleave (by rw [hid])
    exact ⟨node, (AList.lookup_erase_ne hne).trans hl, hr⟩
  | reverseRegistration id timestampMs =>
    unfold HasRelay Cluster.applyControl
    dsimp only
    rw [lookup_registerReverse]
    split_ifs with hid
    · subst hid
      exact ⟨_, rfl, by rw [hl]; rfl⟩
    · exact ⟨node, hl, hr⟩
  | _ => exact ⟨node, hl, hr⟩

end HasRelay

/-! ## The cluster -/

namespace Relaying

variable {ι : Type*} {x : String} {r r' : Relaying ι} {a : ClusterAct ι}

/-- The daemon that a step makes accept a registration of the node. -/
def accepts (s : Cluster ι) (x : String) : ClusterAct ι → List ι
  | .control k _ =>
    match s.net[k]? with
    | some ⟨_, dst, .reverseRegistration id _⟩ => if id = x then [dst] else []
    | _ => []
  | _ => []

def OutboundOnly (s : Cluster ι) (x : String) : Prop :=
  ∀ i, (s.daemons i).config.nodeId = x → (s.daemons i).config.outboundOnly = true

/-- No join or leave of the node is delivered. -/
def Settled (s : Cluster ι) (x : String) (a : ClusterAct ι) : Prop :=
  ∀ k e, a.delivery? = some k → s.net[k]? = some e →
    (∀ addr, e.msg ≠ .nodeJoin x addr) ∧ e.msg ≠ .nodeLeave x

/-- An entry without address, and with no relay or the address of a daemon that accepted a
registration. -/
def Natted (r : Relaying ι) (node : NodeInfo) : Prop :=
  node.addr = "" ∧ (node.relay = none ∨
    ∃ q ∈ r.accepted, node.relay = some (r.cluster.daemons q).config.peerAddr)

/-- Every copy of the entry of the node, in a table or on its way. -/
structure Spread (x : String) (r : Relaying ι) : Prop where
  outbound : OutboundOnly r.cluster x
  keyed : ∀ i, Keyed (r.cluster.daemons i).knownNodes
  tables : ∀ p, HashMap.All (fun id node => id = x → Natted r node)
    (r.cluster.daemons p).knownNodes
  net : ∀ e ∈ r.cluster.net, ∀ config nodes, e.msg = .sync config nodes →
    ∀ node ∈ nodes, node.id = x → Natted r node

theorem natted_received {ownId : String} {node : NodeInfo} (h : Natted r node) :
    Natted r (received ownId node) := by
  unfold received
  split_ifs <;> exact h

/-- A copy without address keeps the relay that is known unless it brings one. -/
theorem natted_mergeEntry {existing node : NodeInfo} (he : Natted r existing)
    (hn : Natted r node) : Natted r (mergeEntry existing node) := by
  constructor
  · rw [mergeEntry_addr]
    exact hn.1
  · rw [mergeEntry_relay]
    split_ifs
    · exact hn.2
    · exact he.2

theorem natted_fixed (conn : String) {nodes : List NodeInfo}
    (hn : ∀ node ∈ nodes, node.id = x → Natted r node) :
    ∀ node ∈ (if conn.isEmpty then nodes else fixUnroutableAddrs conn nodes),
      node.id = x → Natted r node := by
  split_ifs
  · exact hn
  · intro node hmem hid
    obtain ⟨node', hn', rfl⟩ := List.mem_map.mp hmem
    have hnat := hn node' hn' hid
    refine ⟨?_, hnat.2⟩
    dsimp only
    rw [hnat.1]
    exact fixUnroutableAddr_of_routable conn (by decide)

theorem natted_mergedTable {d : Daemon} {nodes : List NodeInfo} (conn : String)
    (contact : Option String) (now : Instant)
    (hd : HashMap.All (fun id node => id = x → Natted r node) d.knownNodes)
    (hn : ∀ node ∈ nodes, node.id = x → Natted r node) :
    HashMap.All (fun id node => id = x → Natted r node)
      (Cluster.mergedTable d nodes conn contact now) := by
  have hfix := natted_fixed conn hn
  apply all_mergeNodes hd
  · exact fun node hmem _ hid => natted_received (hfix node hmem hid)
  · exact fun node hmem _ existing he hid =>
      natted_mergeEntry (he hid) (natted_received (hfix node hmem hid))
  · exact fun _ _ h hid => h hid

variable [DecidableEq ι] {http : HttpCrate}

def next (http : HttpCrate) (x : String) (r : Relaying ι) (a : ClusterAct ι) :
    Option (Relaying ι) :=
  (r.cluster.next http a).map fun s => ⟨s, r.accepted ++ accepts r.cluster x a⟩

/-- The runs of a cluster in which the node is behind NAT and neither joins nor leaves. -/
def system (http : HttpCrate) (x : String) : Transition (Relaying ι) (ClusterAct ι) :=
  (Transition.ofNext (fun r => r.cluster.Booted ∧ OutboundOnly r.cluster x ∧ r.accepted = [])
    (next http x)).restrict fun r a _ => Settled r.cluster x a

theorem next_cases (h : next http x r a = some r') :
    r.cluster.next http a = some r'.cluster ∧
      r'.accepted = r.accepted ++ accepts r.cluster x a := by
  obtain ⟨s, hs, rfl⟩ := Option.map_eq_some_iff.mp h
  exact ⟨hs, rfl⟩

theorem Natted.next {node : NodeInfo} (hn : Natted r node) (h : next http x r a = some r') :
    Natted r' node := by
  obtain ⟨hc, hacc⟩ := next_cases h
  refine ⟨hn.1, hn.2.imp_right ?_⟩
  rintro ⟨q, hq, hrelay⟩
  rw [hacc]
  exact ⟨q, List.mem_append_left _ hq, by rw [hrelay, Cluster.config_next hc]⟩

theorem Spread.control_next {x : String} {k : ℕ} {now : Instant} {src p : ι} {msg : Message}
    (hs : Spread x r) (h : next http x r (.control k now) = some r')
    (hset : Settled r.cluster x (.control k now)) (he : r.cluster.net[k]? = some ⟨src, p, msg⟩) :
    HashMap.All (fun id node => id = x → Natted r' node)
      (Cluster.applyControl (r.cluster.daemons p) now msg) := by
  have hold : HashMap.All (fun id node => id = x → Natted r' node)
      (r.cluster.daemons p).knownNodes := fun id node hn hid => (hs.tables p id node hn hid).next h
  obtain ⟨hc, hacc⟩ := next_cases h
  obtain ⟨hjoin, hleave⟩ := hset k _ rfl he
  cases msg with
  | nodeJoin id addr =>
    have hne : id ≠ x := fun hid => hjoin addr (by rw [hid])
    exact all_applyNodeJoin hold (fun _ _ hid => absurd hid hne) fun _ _ _ hid => absurd hid hne
  | nodeLeave id => exact hold.erase
  | reverseRegistration id timestampMs =>
    have hrelay : id = x → ∃ q ∈ r'.accepted, some (r.cluster.daemons p).config.peerAddr =
        some (r'.cluster.daemons q).config.peerAddr := by
      intro hid
      refine ⟨p, ?_, by rw [Cluster.config_next hc]⟩
      rw [hacc]
      simp [accepts, he, hid]
    apply all_registerReverse hold
    · exact fun _ hid => ⟨rfl, .inr (hrelay hid)⟩
    · exact fun node hn hid => ⟨(hn hid).1, .inr (hrelay hid)⟩
  | _ => exact hold

theorem Spread.step (hs : Spread x r) (h : (system http x).step r a r') : Spread x r' := by
  obtain ⟨hn : next http x r a = some r', hset⟩ := h
  obtain ⟨hc, _⟩ := next_cases hn
  have hconf := Cluster.config_next hc
  refine ⟨fun i hi => ?_, Cluster.keyed_next hs.keyed hc, fun p => ?_,
    fun e he config nodes hm node hmem hid => ?_⟩
  · rw [hconf] at hi ⊢
    exact hs.outbound i hi
  · have hold : HashMap.All (fun id node => id = x → Natted r' node)
        (r.cluster.daemons p).knownNodes :=
      fun id node hlook hid => (hs.tables p id node hlook hid).next hn
    rcases Cluster.daemon_cases hc p with ⟨hsame, _⟩ | ⟨_, _, hd⟩ |
      ⟨_, conn, contact, now, _, config, nodes, _, he, hd⟩ | ⟨k, now, src, msg, rfl, he, hd⟩
    · rw [hsame.2.1]
      exact hold
    · rw [hd]
      exact hold
    · rw [hd]
      apply natted_mergedTable conn contact now hold
      intro node hmem hid
      exact (hs.net _ (List.mem_of_getElem? he) config nodes rfl node hmem hid).next hn
    · rw [hd]
      exact hs.control_next hn hset he
  · apply Natted.next (h := hn)
    rcases Cluster.sent_next hc he with he | ⟨_, hsent⟩
    · exact hs.net e he config nodes hm node hmem hid
    · rw [hm] at hsent
      rcases mem_snapshotNodes (hs.keyed e.src) (hsent.2.mem_iff.mp hmem) with
        ⟨_, hown, haddr, _, hrelay⟩ | ⟨_, hlook⟩
      · have hself := hown.symm.trans hid
        constructor
        · rw [haddr, Config.selfAddr, hs.outbound e.src hself, if_pos rfl]
        · rcases hrelay with hnone | ⟨own, hlook, hrelay⟩
          · exact .inl hnone
          · rw [hrelay]
            exact (hs.tables e.src _ own hlook hself).2
      · exact hs.tables e.src _ node hlook hid

theorem spread_of_reachable (h : (system http x).Reachable r) : Spread x r := by
  refine h.invariant (I := Spread x) ?_ fun _ _ _ hs h => hs.step h
  rintro r ⟨hboot, hout, _⟩
  refine ⟨hout, hboot.all _, hboot.all _, ?_⟩
  simp [hboot.1]

theorem hasRelay_step (hs : Spread x r) (h : (system http x).step r a r') {p : ι}
    (hp : HasRelay x (r.cluster.daemons p).knownNodes) :
    HasRelay x (r'.cluster.daemons p).knownNodes := by
  obtain ⟨hn : next http x r a = some r', hset⟩ := h
  rcases Cluster.daemon_cases (next_cases hn).1 p with ⟨hsame, _⟩ | ⟨_, _, hd⟩ |
    ⟨_, conn, contact, now, _, config, nodes, _, he, hd⟩ | ⟨k, now, src, msg, rfl, he, hd⟩
  · rw [hsame.2.1]
    exact hp
  · rw [hd]
    exact hp
  · have hnat : ∀ node ∈ nodes, node.id = x → Natted r node :=
      hs.net _ (List.mem_of_getElem? he) config nodes rfl
    rw [hd]
    apply hasRelay_mergeNodes contact hp
    exact fun node hmem hid => (natted_fixed conn hnat node hmem hid).1
  · obtain ⟨hjoin, hleave⟩ := hset k _ rfl he
    rw [hd]
    exact hasRelay_applyControl hp hjoin hleave now

/-- The entry of a node behind NAT has no address anywhere, its relay is the address of a daemon
that accepted its registration, and a daemon that knows a relay of it always will. -/
theorem natted_reachable (h : (system http x).Reachable r) (p : ι) :
    (∀ node, (r.cluster.daemons p).knownNodes.lookup x = some node → Natted r node) ∧
      (HasRelay x (r.cluster.daemons p).knownNodes → ∀ r', (system http x).Reaches r r' →
        HasRelay x (r'.cluster.daemons p).knownNodes) := by
  have hs := spread_of_reachable h
  refine ⟨fun node hl => hs.tables p x node hl rfl, fun hp r' hr => ?_⟩
  have hboth : Spread x r' ∧ HasRelay x (r'.cluster.daemons p).knownNodes := by
    refine hr.preserves (I := fun r => Spread x r ∧ HasRelay x (r.cluster.daemons p).knownNodes)
      ?_ ⟨hs, hp⟩
    rintro r₁ a r₂ ⟨hs₁, hp₁⟩ hstep
    exact ⟨hs₁.step hstep, hasRelay_step hs₁ hstep hp₁⟩
  exact hboth.2

/-- A daemon under the given id, behind NAT if it is `x`. -/
def nattedNode (nodeId : String) : Daemon :=
  let d := Cluster.startedNode nodeId
  { d with config := { d.config with outboundOnly := nodeId == "x" } }

def start : Relaying Cluster.Member := ⟨Cluster.membersOf nattedNode, []⟩

def registeredX : Relaying Cluster.Member :=
  Transition.run (next plainHttp "x") start [.sendReverse .x .p 1000, .control 0 3]

theorem natted_registeredX :
    (system plainHttp "x").Reachable registeredX ∧
      (registeredX.cluster.daemons .p).knownNodes.lookup "x" =
        some ⟨"x", "", some "10.0.0.1:8080", some 3, .default⟩ ∧
      ∀ r', (system plainHttp "x").Reaches registeredX r' →
        HasRelay "x" (r'.cluster.daemons .p).knownNodes := by
  have h₀ : (system plainHttp "x").Reachable start := by
    apply Transition.Reachable.of_init
    refine ⟨Cluster.booted_membersOf fun _ => ⟨rfl, rfl⟩, fun i => ?_, rfl⟩
    cases i <;> decide
  have h₁ : (system plainHttp "x").Reachable
      (Transition.run (next plainHttp "x") start [.sendReverse .x .p 1000]) :=
    h₀.snoc (a := ClusterAct.sendReverse .x .p 1000) ⟨rfl, fun k e hk => by cases hk⟩
  have hr : (system plainHttp "x").Reachable registeredX := by
    refine h₁.snoc (a := ClusterAct.control 0 3) ⟨rfl, ?_⟩
    rintro k e ⟨⟩ ⟨⟩
    constructor
    · intro addr h
      cases h
    · intro h
      cases h
  exact ⟨hr, rfl, (natted_reachable hr .p).2 ⟨_, rfl, rfl⟩⟩

end Relaying

end Stouter
