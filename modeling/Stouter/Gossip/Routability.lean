import Mathlib.Data.List.TakeWhile
import Stouter.Gossip.Steps

/-! # Unroutable addresses

A daemon that binds `0.0.0.0` and advertises nothing else sends an address no
peer can use. The receiver of a `Sync` puts the host of the connection in its
place, which is right only for the entry of the sender itself. Two other
messages write addresses without this repair: `NodeJoin` stores the address it
carries, and a daemon that accepts a reverse registration stores its own.
-/

namespace Stouter

/-- The address names no host. -/
def Unroutable (addr : String) : Prop := "0.0.0.0:".toList <+: addr.toList

instance : DecidablePred Unroutable := fun addr =>
  inferInstanceAs (Decidable ("0.0.0.0:".toList <+: addr.toList))

theorem unroutable_iff_take {addr : String} :
    Unroutable addr ↔ addr.toList.take 8 = "0.0.0.0:".toList := by
  rw [Unroutable, List.prefix_iff_eq_take]
  exact eq_comm

theorem fixUnroutableAddr_of_routable (conn : String) {addr : String} (h : ¬ Unroutable addr) :
    fixUnroutableAddr conn addr = addr :=
  if_neg (mt unroutable_iff_take.mpr h)

theorem exists_host_port {conn : String} (h : ':' ∈ conn.toList) :
    ∃ host port, conn.toList = host ++ ':' :: port ∧
      conn.toList.reverse.dropWhile (· ≠ ':') = ':' :: host.reverse := by
  cases hd : conn.toList.reverse.dropWhile (· ≠ ':') with
  | nil =>
    have hall := List.dropWhile_eq_nil_iff.mp hd ':' (List.mem_reverse.mpr h)
    simp at hall
  | cons c host =>
    obtain rfl : c = ':' := by
      have hc := List.head?_dropWhile_not (· ≠ ':') conn.toList.reverse
      rw [hd] at hc
      simpa using hc
    have happ := List.takeWhile_append_dropWhile (p := (· ≠ ':')) (l := conn.toList.reverse)
    rw [hd] at happ
    refine ⟨host.reverse, (conn.toList.reverse.takeWhile (· ≠ ':')).reverse, ?_, by simp⟩
    have hrev := congrArg List.reverse happ
    rw [List.reverse_append, List.reverse_reverse, List.reverse_cons, List.append_assoc] at hrev
    exact hrev.symm

/-- The repair works on every connection whose own address names a host. -/
theorem routable_fixUnroutableAddr {conn : String} (addr : String) (hport : ':' ∈ conn.toList)
    (hconn : ¬ Unroutable conn) : ¬ Unroutable (fixUnroutableAddr conn addr) := by
  by_cases ha : Unroutable addr
  · obtain ⟨host, port, hsplit, hd⟩ := exists_host_port hport
    intro h
    apply hconn
    rw [fixUnroutableAddr, if_pos (unroutable_iff_take.mp ha)] at h
    dsimp only at h
    rw [hd] at h
    simp only [Unroutable, String.toList_ofList, List.reverse_reverse] at h
    rw [Unroutable, hsplit]
    have hcolon : ':' ∉ "0.0.0.0".toList := by decide
    exact List.prefix_before_separator hcolon h
  · rwa [fixUnroutableAddr_of_routable conn ha]

/-! ## Runs of the cluster -/

/-- The address of a real connection: it has a port, and the remote end of an accepted connection
has a host. -/
def ClusterAct.OnConnection {ι : Type*} : ClusterAct ι → Prop
  | .mergeNodes _ conn contact _ => ':' ∈ conn.toList ∧
      match contact with
      | none => ¬ Unroutable conn
      | some addr => addr = conn
  | _ => True

namespace Cluster

variable {ι : Type*} {s t : Cluster ι}

/-- No table holds an unroutable address or relay of another node, and the entries of a `Sync`
into which its receiver substitutes the host of the connection are those of its sender. -/
structure Contained (s : Cluster ι) : Prop where
  tables : ∀ i id node, (s.daemons i).knownNodes.lookup id = some node →
    id ≠ (s.daemons i).config.nodeId →
      ¬ Unroutable node.addr ∧ ∀ relay, node.relay = some relay → ¬ Unroutable relay
  substitutions : ∀ e ∈ s.net, ∀ config nodes, e.msg = .sync config nodes →
    ∀ node ∈ nodes, ∀ conn, fixUnroutableAddr conn node.addr ≠ node.addr →
      node.id = (s.daemons e.src).config.nodeId

/-- The daemon can take in the message without learning an unroutable address of another node:
a join carries an address with a host, a registration reaches a daemon that advertises one, and
a `Sync` with an unroutable address arrives on a connection whose address can repair it. -/
def Repairable (d : Daemon) (conn : Option String) : Message → Prop
  | .sync _ nodes => ∀ addr, conn = some addr → Unroutable addr →
      ∀ node ∈ nodes, Unroutable node.addr → node.id = d.config.nodeId
  | .nodeJoin id addr => isValidNodeId id → id ≠ d.config.nodeId → ¬ Unroutable addr
  | .reverseRegistration _ _ => ¬ Unroutable d.config.peerAddr
  | _ => True

/-- The message that a step delivers, and the connection if it is merged as a `Sync`. -/
def Delivers (s : Cluster ι) (a : ClusterAct ι) (e : Envelope ι) (conn : Option String) : Prop :=
  (∃ k addr contact now, a = .mergeNodes k addr contact now ∧ s.net[k]? = some e ∧
    conn = some addr) ∨
  ∃ k now, a = .control k now ∧ s.net[k]? = some e ∧ conn = none

def Routable (ownId id : String) (node : NodeInfo) : Prop :=
  (id ≠ ownId → ¬ Unroutable node.addr) ∧ ∀ relay, node.relay = some relay → ¬ Unroutable relay

structure Routed (s : Cluster ι) : Prop where
  keyed : ∀ i, Keyed (s.daemons i).knownNodes
  tables : ∀ i, HashMap.All (Routable (s.daemons i).config.nodeId) (s.daemons i).knownNodes
  net : ∀ e ∈ s.net, ∀ config nodes, e.msg = .sync config nodes →
    ∀ node ∈ nodes, Routable (s.daemons e.src).config.nodeId node.id node

theorem Routed.contained (hs : Routed s) : Contained s := by
  constructor
  · intro i id node hn hid
    obtain ⟨haddr, hrelay⟩ := hs.tables i id node hn
    exact ⟨haddr hid, hrelay⟩
  · intro e he config nodes hm node hmem conn hfix
    by_contra hid
    exact hfix (fixUnroutableAddr_of_routable conn ((hs.net e he config nodes hm node hmem).1 hid))

variable [DecidableEq ι] {http : HttpCrate} {a : ClusterAct ι}

def connected (http : HttpCrate) : Transition (Cluster ι) (ClusterAct ι) :=
  (gossip http).restrict fun _ a _ => a.OnConnection

/-- The runs in which every delivered message is repairable. -/
def repairable (http : HttpCrate) : Transition (Cluster ι) (ClusterAct ι) :=
  (connected http).restrict fun s a _ =>
    ∀ e conn, Delivers s a e conn → Repairable (s.daemons e.dst) conn e.msg

theorem routable_received {ownId id : String} {node : NodeInfo} (h : Routable ownId id node)
    (lastSeen : Option Instant) : Routable ownId id { received ownId node with lastSeen } := by
  unfold received
  split_ifs <;> exact h

theorem routable_mergeEntry {ownId id : String} {existing node : NodeInfo}
    (he : Routable ownId id existing) (hn : Routable ownId id node) :
    Routable ownId id (mergeEntry existing node) := by
  constructor
  · rw [mergeEntry_addr]
    exact hn.1
  · rw [mergeEntry_relay]
    split_ifs
    · exact hn.2
    · exact he.2

/-- What the receiver takes over of a repairable `Sync` is routable. -/
theorem routable_fixed {d : Daemon} {srcId conn : String} {config : DynamicConfig}
    {nodes : List NodeInfo} {node : NodeInfo} (hport : ':' ∈ conn.toList)
    (hrep : Repairable d (some conn) (.sync config nodes)) (hn : node ∈ nodes)
    (hr : Routable srcId node.id node) :
    Routable d.config.nodeId node.id
      { node with addr := fixUnroutableAddr conn node.addr } := by
  refine ⟨fun hid => ?_, hr.2⟩
  by_cases hc : Unroutable conn
  · have ha : ¬ Unroutable node.addr := fun ha => hid (hrep conn rfl hc node hn ha)
    rwa [fixUnroutableAddr_of_routable conn ha]
  · exact routable_fixUnroutableAddr node.addr hport hc

theorem routable_mergedTable {d : Daemon} {nodes : List NodeInfo} {conn : String}
    (hne : conn ≠ "") (contact : Option String) (now : Instant)
    (hd : HashMap.All (Routable d.config.nodeId) d.knownNodes)
    (hn : ∀ node ∈ nodes, Routable d.config.nodeId node.id
      { node with addr := fixUnroutableAddr conn node.addr }) :
    HashMap.All (Routable d.config.nodeId) (mergedTable d nodes conn contact now) := by
  have hfix : ∀ node ∈ fixUnroutableAddrs conn nodes, Routable d.config.nodeId node.id node := by
    intro node hmem
    obtain ⟨node', hn', rfl⟩ := List.mem_map.mp hmem
    exact hn node' hn'
  rw [mergedTable, if_neg (by simpa using hne)]
  apply all_mergeNodes hd
  · intro node hmem _
    exact routable_received (hfix node hmem) _
  · intro node hmem _ existing he
    apply routable_mergeEntry he
    exact routable_received (hfix node hmem) (received d.config.nodeId node).lastSeen
  · exact fun _ _ h => h

theorem routable_applyControl {d : Daemon} {msg : Message} (now : Instant)
    (hd : HashMap.All (Routable d.config.nodeId) d.knownNodes) (hrep : Repairable d none msg) :
    HashMap.All (Routable d.config.nodeId) (applyControl d now msg) := by
  cases msg with
  | nodeJoin id addr =>
    apply all_applyNodeJoin hd
    · exact fun hv _ => ⟨hrep hv, by simp⟩
    · exact fun hv node h => ⟨hrep hv, h.2⟩
  | nodeLeave id => exact hd.erase
  | reverseRegistration id timestampMs =>
    have hrelay : ∀ relay, some d.config.peerAddr = some relay → ¬ Unroutable relay := by
      rintro relay ⟨⟩
      exact hrep
    have hempty : ¬ Unroutable "" := by decide
    apply all_registerReverse hd
    · exact fun _ => ⟨fun _ => hempty, hrelay⟩
    · exact fun node h => ⟨h.1, hrelay⟩
  | _ => exact hd

theorem Routed.step (hs : Routed s) (h : (repairable http).step s a t) : Routed t := by
  obtain ⟨⟨hn : next http s a = some t, hconn⟩, hrep⟩ := h
  refine ⟨keyed_next hs.keyed hn, fun i => ?_, fun e he config nodes hm node hmem => ?_⟩
  · rw [config_next hn]
    rcases daemon_cases hn i with ⟨hs', _⟩ | ⟨_, _, hd⟩ |
      ⟨k, conn, contact, now, src, config, nodes, rfl, he, hd⟩ | ⟨k, now, src, msg, rfl, he, hd⟩
    · rw [hs'.2.1]
      exact hs.tables i
    · rw [hd]
      exact hs.tables i
    · rw [hd]
      have hne : conn ≠ "" := by
        rintro rfl
        exact absurd hconn.1 (by decide)
      apply routable_mergedTable hne contact now (hs.tables i)
      intro node hmem
      exact routable_fixed hconn.1 (hrep _ _ (.inl ⟨k, conn, contact, now, rfl, he, rfl⟩)) hmem
        (hs.net _ (List.mem_of_getElem? he) config nodes rfl node hmem)
    · rw [hd]
      exact routable_applyControl now (hs.tables i) (hrep _ _ (.inr ⟨k, now, rfl, he, rfl⟩))
  · rw [config_next hn]
    rcases sent_next hn he with he | ⟨_, hsent⟩
    · exact hs.net e he config nodes hm node hmem
    · rw [hm] at hsent
      rcases mem_snapshotNodes (hs.keyed e.src) (hsent.2.mem_iff.mp hmem) with
        ⟨_, hid, _, _, hrelay⟩ | ⟨_, hlook⟩
      · refine ⟨fun hne => absurd hid hne, fun relay hr => ?_⟩
        rcases hrelay with hnone | ⟨own, hown, hrelay⟩
        · rw [hnone] at hr
          cases hr
        · exact (hs.tables e.src _ own hown).2 relay (hrelay ▸ hr)
      · exact hs.tables e.src _ node hlook

/-- While every delivered message is repairable, unroutable addresses do not spread. -/
theorem contained_of_repairable (h : (repairable http).Reachable s) : Contained s := by
  have hs : Routed s := by
    refine h.invariant (I := Routed) ?_ fun _ _ _ hs h => hs.step h
    intro s hs
    refine ⟨hs.all _, fun i => hs.all _ i, fun e he => ?_⟩
    simp [hs.1] at he
  exact hs.contained

/-- A daemon with the default bind address that has just started under the given id. -/
def boundNode (nodeId : String) : Daemon where
  config := { Config.default with nodeId }
  store := ⟨.default, some .default⟩
  knownNodes := ∅
  localHealth := .default

def bound : Cluster Member := membersOf boundNode

theorem booted_bound : Booted bound := booted_membersOf fun _ => ⟨rfl, rfl⟩

def ownEntryX : NodeInfo := ⟨"x", "0.0.0.0:8080", none, none, .default⟩

def syncedX : Cluster Member :=
  Transition.run (next plainHttp) bound
    [.sendSync .x .p [ownEntryX], .mergeNodes 0 "10.0.0.9:41000" none 3]

theorem contained_syncedX :
    (repairable plainHttp).Reachable syncedX ∧ Contained syncedX ∧
      ((syncedX.daemons .p).knownNodes.lookup "x").map (·.addr) = some "10.0.0.9:8080" := by
  have h₁ : (repairable plainHttp).step bound (.sendSync .x .p [ownEntryX])
      (Transition.run (next plainHttp) bound [.sendSync .x .p [ownEntryX]]) := by
    refine ⟨⟨rfl, trivial⟩, ?_⟩
    rintro e conn (⟨_, _, _, _, ha, _⟩ | ⟨_, _, ha, _⟩) <;> cases ha
  have hr : (repairable plainHttp).Reachable syncedX := by
    refine ((Transition.Reachable.of_init booted_bound).snoc h₁).snoc
      (a := ClusterAct.mergeNodes 0 "10.0.0.9:41000" none 3) ⟨⟨rfl, by decide, by decide⟩, ?_⟩
    rintro e conn (⟨_, _, _, _, ha, he, rfl⟩ | ⟨_, _, ha, _⟩)
    · cases ha
      cases he
      rintro addr ⟨⟩ hc
      exact absurd hc (by decide)
    · cases ha
  exact ⟨hr, contained_of_repairable hr, by decide⟩

def joinedNodes : List NodeInfo :=
  [⟨"x", "0.0.0.0:8080", none, some 3, .default⟩, ⟨"p", "0.0.0.0:8080", none, none, .default⟩]

def joinedX : Cluster Member :=
  Transition.run (next plainHttp) bound [.sendJoin .x .p, .control 0 3]

def relayedX : Cluster Member :=
  Transition.run (next plainHttp) joinedX
    [.sendSync .p .q joinedNodes, .mergeNodes 1 "10.0.0.1:41000" none 5]

/-- The unroutable address of `x` is stored by `p` and reaches `q` as an address of `p`. -/
theorem spread_joinedX :
    (connected plainHttp).Reachable joinedX ∧
      ((joinedX.daemons .p).knownNodes.lookup "x").map (·.addr) = some "0.0.0.0:8080" ∧
      (connected plainHttp).Reachable relayedX ∧
      ((relayedX.daemons .q).knownNodes.lookup "x").map (·.addr) = some "10.0.0.1:8080" ∧
      ¬ Contained joinedX ∧ ¬ Contained relayedX := by
  have h₀ : (connected plainHttp).Reachable bound := .of_init booted_bound
  have h₁ : (connected plainHttp).Reachable
      (Transition.run (next plainHttp) bound [.sendJoin .x .p]) :=
    h₀.snoc (a := ClusterAct.sendJoin .x .p) ⟨rfl, trivial⟩
  have hj : (connected plainHttp).Reachable joinedX :=
    h₁.snoc (a := ClusterAct.control 0 3) ⟨rfl, trivial⟩
  have h₂ : (connected plainHttp).Reachable
      (Transition.run (next plainHttp) joinedX [.sendSync .p .q joinedNodes]) :=
    hj.snoc (a := ClusterAct.sendSync .p .q joinedNodes) ⟨rfl, trivial⟩
  have hr : (connected plainHttp).Reachable relayedX :=
    h₂.snoc (a := ClusterAct.mergeNodes 1 "10.0.0.1:41000" none 5) ⟨rfl, by decide, by decide⟩
  have hnet : relayedX.net[1]? = some ⟨.p, .q, .sync .default joinedNodes⟩ := rfl
  refine ⟨hj, by decide, hr, by decide, fun h => ?_, fun h => ?_⟩
  · exact (h.tables .p "x" _ rfl (by decide)).1 (by decide)
  · have hown := h.substitutions _ (List.mem_of_getElem? hnet) _ _ rfl _ List.mem_cons_self
      "10.0.0.1:41000" (by decide)
    exact absurd hown (by decide)

end Cluster

end Stouter
