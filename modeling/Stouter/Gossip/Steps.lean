import Stouter.Gossip.Cluster

/-! # What a step of the cluster does

`Took` is the inversion of `next`. From it, `daemon_cases` says how a step
changes the table and the health of one daemon, and `sent_next` which messages
it adds to the network. The invariants of the cluster are proved from these two.
-/

namespace Stouter

namespace ClusterAct

variable {ι : Type*}

/-- The daemon that a step makes send messages. -/
def sender? : ClusterAct ι → Option ι
  | .admin i _ _ _ _ => some i
  | .poll i _ _ _ => some i
  | .sendSync i _ _ => some i
  | .sendJoin i _ => some i
  | .sendLeave i _ => some i
  | .sendReverse i _ _ => some i
  | _ => none

/-- The message whose effect on the table a step applies. -/
def delivery? : ClusterAct ι → Option ℕ
  | .mergeNodes k _ _ _ => some k
  | .control k _ => some k
  | _ => none

end ClusterAct

namespace Cluster

variable {ι : Type*} {s t : Cluster ι} {a : ClusterAct ι} {e : Envelope ι}

theorem mem_send {src dst : ι} {msg : Message} (he : e ∈ (s.send src dst msg).net) :
    e ∈ s.net ∨ e = ⟨src, dst, msg⟩ := by
  simpa [send] using he

/-- Daemons start knowing nobody, whatever configuration they loaded. -/
def Booted (s : Cluster ι) : Prop :=
  s.net = [] ∧ ∀ i, (s.daemons i).knownNodes = ∅ ∧ (s.daemons i).localHealth = .default

theorem Started.booted (h : Started s) : Booted s := by
  obtain ⟨hnet, dc, hd⟩ := h
  exact ⟨hnet, fun i => (hd i).2⟩

theorem Booted.all (h : Booted s) (Q : String → NodeInfo → Prop) (i : ι) :
    HashMap.All Q (s.daemons i).knownNodes := by
  rw [(h.2 i).1]
  exact HashMap.all_empty

variable [DecidableEq ι] {http : HttpCrate}

def gossip (http : HttpCrate) : Transition (Cluster ι) (ClusterAct ι) :=
  Transition.ofNext Booted (next http)

def mergedTable (d : Daemon) (nodes : List NodeInfo) (conn : String) (contact : Option String)
    (now : Instant) : NodeMap :=
  (Stouter.mergeNodes d.config.nodeId
    (if conn.isEmpty then nodes else fixUnroutableAddrs conn nodes) contact now d.knownNodes).1

def SameTable (d d' : Daemon) : Prop :=
  d'.config = d.config ∧ d'.knownNodes = d.knownNodes ∧ d'.localHealth = d.localHealth

theorem sameTable_store (d : Daemon) (store : Store) : SameTable d { d with store } :=
  ⟨rfl, rfl, rfl⟩

theorem sameTable_setDaemon {j : ι} {d : Daemon} (h : SameTable (s.daemons j) d) (i : ι) :
    SameTable (s.daemons i) ((s.setDaemon j d).daemons i) := by
  rw [setDaemon_daemons]
  split_ifs with hi
  · subst hi
    exact h
  · exact ⟨rfl, rfl, rfl⟩

theorem sameTable_announce {j : ι} {peers : List ι} {store : Store} {config : Option DynamicConfig}
    (i : ι) : SameTable (s.daemons i) ((s.announce j peers store config).daemons i) := by
  rw [announce_daemons, ← setDaemon_daemons]
  exact sameTable_setDaemon (sameTable_store _ _) i

/-- What the daemon may put on the network. -/
def Sent (d : Daemon) : Message → Prop
  | .sync config nodes => config = d.store.memory ∧
      nodes.Perm (snapshotNodes d.config d.localHealth d.knownNodes)
  | .configUpdate _ => True
  | .nodeJoin id addr => id = d.config.nodeId ∧ addr = d.config.peerAddr
  | .nodeLeave id => id = d.config.nodeId ∧ id ≠ ""
  | .reverseRegistration id _ => id = d.config.nodeId
  | _ => False

/-- The steps by what they change: they announce a configuration, change a store or a health report,
send a message, deliver one or lose one. -/
inductive Took (s : Cluster ι) : ClusterAct ι → Cluster ι → Prop
  | announce {a : ClusterAct ι} {j : ι} (peers : List ι) (store : Store)
      (config : Option DynamicConfig) (hs : a.sender? = some j) (hd : a.delivery? = none) :
    Took s a (s.announce j peers store config)
  | store {a : ClusterAct ι} (j : ι) (store : Store) (hd : a.delivery? = none) :
    Took s a (s.setDaemon j { s.daemons j with store })
  | publishHealth (j : ι) (health : ServiceHealth) :
    Took s (.publishHealth j health) (s.setDaemon j { s.daemons j with localHealth := health })
  | send {a : ClusterAct ι} {j : ι} {msg : Message} (dst : ι) (hs : a.sender? = some j)
      (hd : a.delivery? = none) (hm : Sent (s.daemons j) msg) : Took s a (s.send j dst msg)
  | mergeNodes {k : ℕ} {src dst : ι} {config : DynamicConfig} {nodes : List NodeInfo}
      (conn : String) (contact : Option String) (now : Instant)
      (he : s.net[k]? = some ⟨src, dst, .sync config nodes⟩) :
    Took s (.mergeNodes k conn contact now) (s.setDaemon dst { s.daemons dst with
      knownNodes := mergedTable (s.daemons dst) nodes conn contact now })
  | control {k : ℕ} {e : Envelope ι} (now : Instant) (he : s.net[k]? = some e) :
    Took s (.control k now) (s.setDaemon e.dst { s.daemons e.dst with
      knownNodes := applyControl (s.daemons e.dst) now e.msg })
  | lose (k : ℕ) : Took s (.lose k) { s with net := s.net.eraseIdx k }

theorem took_of_next (h : next http s a = some t) : Took s a t := by
  cases a with
  | admin j peerCn op saved peers =>
    obtain rfl := Option.some.inj h
    exact .announce peers _ _ rfl rfl
  | poll j loaded saved peers =>
    obtain rfl := Option.some.inj h
    exact .announce peers _ _ rfl rfl
  | edit j file =>
    obtain rfl := Option.some.inj h
    exact .store j _ rfl
  | persist j saved =>
    obtain rfl := Option.some.inj h
    exact .store j _ rfl
  | publishHealth j health =>
    obtain rfl := Option.some.inj h
    exact .publishHealth j health
  | sendSync j dst nodes =>
    unfold next at h
    dsimp only at h
    split_ifs at h with hp
    obtain rfl := Option.some.inj h
    exact .send dst rfl rfl ⟨rfl, hp⟩
  | sendJoin j dst =>
    obtain rfl := Option.some.inj h
    exact .send dst rfl rfl ⟨rfl, rfl⟩
  | sendLeave j dst =>
    unfold next at h
    dsimp only at h
    split_ifs at h with hne
    obtain rfl := Option.some.inj h
    exact .send dst rfl rfl ⟨rfl, by simpa using hne⟩
  | sendReverse j dst timestampMs =>
    obtain rfl := Option.some.inj h
    exact .send dst rfl rfl rfl
  | mergeConfig k saved =>
    obtain ⟨e, _, hm⟩ := Option.bind_eq_some_iff.mp h
    obtain ⟨config, _, rfl⟩ := Option.map_eq_some_iff.mp hm
    exact .store e.dst _ rfl
  | mergeNodes k conn contact now =>
    obtain ⟨⟨src, dst, msg⟩, he, hm⟩ := Option.bind_eq_some_iff.mp h
    obtain ⟨nodes, hn, rfl⟩ := Option.map_eq_some_iff.mp hm
    cases msg <;> cases hn
    exact .mergeNodes conn contact now he
  | control k now =>
    obtain ⟨e, he, rfl⟩ := Option.map_eq_some_iff.mp h
    exact .control now he
  | lose k =>
    obtain rfl := Option.some.inj h
    exact .lose k

/-- A step leaves the gossip state of a daemon alone and delivers nothing to it, publishes its
health, merges a node list into its table, or applies another message to it. -/
theorem daemon_cases (h : next http s a = some t) (i : ι) :
    (SameTable (s.daemons i) (t.daemons i) ∧
        ∀ k e, a.delivery? = some k → s.net[k]? = some e → e.dst ≠ i) ∨
      (∃ health, a = .publishHealth i health ∧
        t.daemons i = { s.daemons i with localHealth := health }) ∨
      (∃ k conn contact now src config nodes, a = .mergeNodes k conn contact now ∧
        s.net[k]? = some ⟨src, i, .sync config nodes⟩ ∧
        t.daemons i = { s.daemons i with
          knownNodes := mergedTable (s.daemons i) nodes conn contact now }) ∨
      ∃ k now src msg, a = .control k now ∧ s.net[k]? = some ⟨src, i, msg⟩ ∧
        t.daemons i = { s.daemons i with knownNodes := applyControl (s.daemons i) now msg } := by
  have hsame : ∀ d : Daemon, SameTable d d := fun d => ⟨rfl, rfl, rfl⟩
  cases took_of_next h with
  | announce peers store config hs hd => exact .inl ⟨sameTable_announce i, by simp [hd]⟩
  | store j store hd => exact .inl ⟨sameTable_setDaemon (sameTable_store _ _) i, by simp [hd]⟩
  | publishHealth j health =>
    rw [setDaemon_daemons]
    split_ifs with hi
    · subst hi
      exact .inr (.inl ⟨health, rfl, rfl⟩)
    · exact .inl ⟨hsame _, by simp [ClusterAct.delivery?]⟩
  | send dst hs hd hm => exact .inl ⟨hsame _, by simp [hd]⟩
  | @mergeNodes k src dst config nodes conn contact now he =>
    rw [setDaemon_daemons]
    split_ifs with hi
    · subst hi
      exact .inr (.inr (.inl ⟨k, conn, contact, now, src, config, nodes, rfl, he, rfl⟩))
    · refine .inl ⟨hsame _, ?_⟩
      rintro _ e ⟨⟩ he'
      obtain rfl := Option.some.inj (he.symm.trans he')
      exact Ne.symm hi
  | @control k e now he =>
    rw [setDaemon_daemons]
    split_ifs with hi
    · subst hi
      exact .inr (.inr (.inr ⟨k, now, e.src, e.msg, rfl, he, rfl⟩))
    · refine .inl ⟨hsame _, ?_⟩
      rintro _ e' ⟨⟩ he'
      obtain rfl := Option.some.inj (he.symm.trans he')
      exact Ne.symm hi
  | lose k => exact .inl ⟨hsame _, by simp [ClusterAct.delivery?]⟩

theorem config_next (h : next http s a = some t) (i : ι) :
    (t.daemons i).config = (s.daemons i).config := by
  rcases daemon_cases h i with ⟨hs, _⟩ | ⟨_, _, hd⟩ | ⟨_, _, _, _, _, _, _, _, _, hd⟩ |
    ⟨_, _, _, _, _, _, hd⟩
  · exact hs.1
  · rw [hd]
  · rw [hd]
  · rw [hd]

theorem sent_next (h : next http s a = some t) (he : e ∈ t.net) :
    e ∈ s.net ∨ a.sender? = some e.src ∧ Sent (s.daemons e.src) e.msg := by
  cases took_of_next h with
  | announce peers store config hs hd =>
    apply (mem_announce_net he).imp_right
    rintro ⟨rfl, dc, _, hm⟩
    exact ⟨hs, by rw [hm]; trivial⟩
  | send dst hs hd hm =>
    apply (mem_send he).imp_right
    rintro rfl
    exact ⟨hs, hm⟩
  | lose k => exact .inl (List.mem_of_mem_eraseIdx he)
  | _ => exact .inl he

theorem keyed_applyControl {d : Daemon} (hk : Keyed d.knownNodes) (now : Instant) (msg : Message) :
    Keyed (applyControl d now msg) := by
  cases msg with
  | nodeJoin joined addr => exact hk.applyNodeJoin joined addr
  | nodeLeave left => exact hk.erase
  | reverseRegistration registered timestampMs => exact hk.registerReverse registered _
  | _ => exact hk

theorem keyed_next (hk : ∀ i, Keyed (s.daemons i).knownNodes) (h : next http s a = some t) (i : ι) :
    Keyed (t.daemons i).knownNodes := by
  rcases daemon_cases h i with ⟨hs, _⟩ | ⟨_, _, hd⟩ | ⟨_, _, contact, _, _, _, _, _, _, hd⟩ |
    ⟨_, now, _, msg, _, _, hd⟩
  · rw [hs.2.1]
    exact hk i
  · rw [hd]
    exact hk i
  · rw [hd]
    exact (hk i).mergeNodes _ contact
  · rw [hd]
    exact keyed_applyControl (hk i) now msg

/-! ## A small cluster -/

inductive Member
  | p
  | q
  | x
  deriving DecidableEq

def membersOf (node : String → Daemon) : Cluster Member where
  daemons
    | .p => node "p"
    | .q => node "q"
    | .x => node "x"
  net := []

theorem booted_membersOf {node : String → Daemon}
    (h : ∀ id, (node id).knownNodes = ∅ ∧ (node id).localHealth = .default) :
    Booted (membersOf node) := by
  refine ⟨rfl, fun i => ?_⟩
  cases i <;> exact h _

end Cluster

end Stouter
