import Stouter.Gossip.Messages
import Stouter.Transition.Basic

/-! # The cluster

Any number of daemons and the messages between them. A message is handed over
without leaving the network, so it can arrive late, out of order and more than
once; `lose` drops one. The two halves of a `Sync` are merged under different
locks and are therefore separate steps.
-/

namespace Stouter

/-- The state of one daemon that gossip reads and writes. -/
structure Daemon where
  config : Config
  store : Store
  knownNodes : NodeMap
  localHealth : ServiceHealth

structure Envelope (ι : Type*) where
  src : ι
  dst : ι
  msg : Message

structure Cluster (ι : Type*) where
  daemons : ι → Daemon
  net : List (Envelope ι)

/-- The steps of a cluster. Messages are named by their position in the network; `conn` is the
address of the connection a `Sync` came in on, and `contact` is set for the reply to an outbound
sync. -/
inductive ClusterAct (ι : Type*)
  | admin (i : ι) (peerCn : Option String) (op : AdminOp) (saved : Bool) (peers : List ι)
  | poll (i : ι) (loaded saved : Bool) (peers : List ι)
  | edit (i : ι) (file : Option DynamicConfig)
  | persist (i : ι) (saved : Bool)
  | publishHealth (i : ι) (health : ServiceHealth)
  | sendSync (i dst : ι) (nodes : List NodeInfo)
  | sendJoin (i dst : ι)
  | sendLeave (i dst : ι)
  | sendReverse (i dst : ι) (timestampMs : UInt64)
  | mergeConfig (k : ℕ) (saved : Bool)
  | mergeNodes (k : ℕ) (conn : String) (contact : Option String) (now : Instant)
  | control (k : ℕ) (now : Instant)
  | lose (k : ℕ)

namespace Cluster

variable {ι : Type*} [DecidableEq ι]

def setDaemon (s : Cluster ι) (i : ι) (d : Daemon) : Cluster ι :=
  { s with daemons := Function.update s.daemons i d }

def send (s : Cluster ι) (src dst : ι) (msg : Message) : Cluster ι :=
  { s with net := s.net ++ [⟨src, dst, msg⟩] }

def broadcast (s : Cluster ι) (src : ι) (peers : List ι) (msg : Message) : Cluster ι :=
  { s with net := s.net ++ peers.map fun dst => ⟨src, dst, msg⟩ }

/-- Replace the store of a daemon and broadcast the configuration it announces. -/
def announce (s : Cluster ι) (i : ι) (peers : List ι) (store : Store)
    (config : Option DynamicConfig) : Cluster ι :=
  let s' := s.setDaemon i { s.daemons i with store }
  match config with
  | some dc => s'.broadcast i peers (.configUpdate dc)
  | none => s'

/-- The table of a daemon after a message other than a `Sync`. -/
def applyControl (d : Daemon) (now : Instant) : Message → NodeMap
  | .nodeJoin id addr => (applyNodeJoin id addr now d.knownNodes).1
  | .nodeLeave id => applyNodeLeave id d.knownNodes
  | .reverseRegistration id _ => registerReverse id d.config.peerAddr now d.knownNodes
  | _ => d.knownNodes

@[simp] theorem setDaemon_net (s : Cluster ι) (i : ι) (d : Daemon) :
    (s.setDaemon i d).net = s.net :=
  rfl

theorem setDaemon_daemons (s : Cluster ι) (i j : ι) (d : Daemon) :
    (s.setDaemon i d).daemons j = if j = i then d else s.daemons j :=
  Function.update_apply s.daemons i d j

theorem announce_daemons (s : Cluster ι) (i j : ι) (peers : List ι) (store : Store)
    (config : Option DynamicConfig) :
    (s.announce i peers store config).daemons j =
      if j = i then { s.daemons i with store } else s.daemons j := by
  rw [← setDaemon_daemons]
  cases config <;> rfl

theorem mem_announce_net {s : Cluster ι} {i : ι} {peers : List ι} {store : Store}
    {config : Option DynamicConfig} {e : Envelope ι}
    (he : e ∈ (s.announce i peers store config).net) :
    e ∈ s.net ∨ e.src = i ∧ ∃ dc, config = some dc ∧ e.msg = .configUpdate dc := by
  cases config with
  | none => exact .inl he
  | some dc =>
    rcases List.mem_append.mp he with he | he
    · exact .inl he
    · obtain ⟨_, _, rfl⟩ := List.mem_map.mp he
      exact .inr ⟨rfl, dc, rfl, rfl⟩

def next (http : HttpCrate) (s : Cluster ι) : ClusterAct ι → Option (Cluster ι)
  | .admin i peerCn op saved peers =>
    let d := s.daemons i
    let out := handleAdminRequest http d.config peerCn op saved d.store
    some (s.announce i peers out.store out.broadcast)
  | .poll i loaded saved peers =>
    let out := (s.daemons i).store.poll loaded saved
    some (s.announce i peers out.2 out.1)
  | .edit i file =>
    let d := s.daemons i
    some (s.setDaemon i { d with store := { d.store with file } })
  | .persist i saved =>
    let d := s.daemons i
    some (s.setDaemon i { d with store := d.store.persist d.store.memory saved })
  | .publishHealth i health => some (s.setDaemon i { s.daemons i with localHealth := health })
  | .sendSync i dst nodes =>
    let d := s.daemons i
    -- The hash map is listed in any order.
    if nodes.Perm (snapshotNodes d.config d.localHealth d.knownNodes) then
      some (s.send i dst (.sync d.store.memory nodes))
    else none
  | .sendJoin i dst =>
    let d := s.daemons i
    some (s.send i dst (.nodeJoin d.config.nodeId d.config.peerAddr))
  | .sendLeave i dst =>
    let d := s.daemons i
    if d.config.nodeId.isEmpty then none else some (s.send i dst (.nodeLeave d.config.nodeId))
  | .sendReverse i dst timestampMs =>
    some (s.send i dst (.reverseRegistration (s.daemons i).config.nodeId timestampMs))
  | .mergeConfig k saved =>
    s.net[k]?.bind fun e => e.msg.config?.map fun config =>
      let d := s.daemons e.dst
      s.setDaemon e.dst { d with store := d.store.merge config saved }
  | .mergeNodes k conn contact now =>
    s.net[k]?.bind fun e => e.msg.nodes?.map fun nodes =>
      let d := s.daemons e.dst
      let nodes := if conn.isEmpty then nodes else fixUnroutableAddrs conn nodes
      let merged := Stouter.mergeNodes d.config.nodeId nodes contact now d.knownNodes
      s.setDaemon e.dst { d with knownNodes := merged.1 }
  | .control k now =>
    s.net[k]?.map fun e =>
      let d := s.daemons e.dst
      s.setDaemon e.dst { d with knownNodes := applyControl d now e.msg }
  | .lose k => some { s with net := s.net.eraseIdx k }

/-- Daemons start from one configuration, loaded from their files, and know nobody. -/
def Started (s : Cluster ι) : Prop :=
  s.net = [] ∧ ∃ dc, ∀ i, (s.daemons i).store = ⟨dc, some dc⟩ ∧ (s.daemons i).knownNodes = ∅ ∧
    (s.daemons i).localHealth = .default

def system (http : HttpCrate) : Transition (Cluster ι) (ClusterAct ι) :=
  Transition.ofNext Started (next http)

def startedNode (nodeId : String) : Daemon where
  config := { Config.default with nodeId, advertiseAddr := some "10.0.0.1:8080" }
  store := ⟨.default, some .default⟩
  knownNodes := ∅
  localHealth := .default

def trio : Cluster (Fin 3) := ⟨fun i => startedNode (["p", "q", "x"].get i), []⟩

theorem started_trio : Started trio := ⟨rfl, _, fun _ => ⟨rfl, rfl, rfl⟩⟩

end Cluster

end Stouter
