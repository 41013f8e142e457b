import Stouter.Gossip.Steps
import Stouter.Registers.Basic

/-! # Health reports

A node's health reaches the other daemons through relayed copies of its entry,
in any order. Every daemon treats the health of an entry as a register that
only a newer report overwrites, and drops what others say about itself. It
also drops all entries with an invalid id, although a reverse registration
creates one without looking at the id. The cluster is observed together with
what each node has published and with the reports each daemon was offered
since it created an entry.
-/

namespace Stouter

open Register

def ServiceHealth.rank (health : ServiceHealth) : ℕ := health.version.toNat

theorem health_mergeEntry (existing node : NodeInfo) :
    (mergeEntry existing node).health =
      keepNewer ServiceHealth.rank existing.health node.health := by
  rw [mergeEntry_health, keepNewer]
  exact if_congr UInt64.le_iff_toNat_le rfl rfl

def reports (id : String) (nodes : List NodeInfo) : List ServiceHealth :=
  (nodes.filter (·.id == id)).map (·.health)

theorem reports_cons (id : String) (node : NodeInfo) (nodes : List NodeInfo) :
    reports id (node :: nodes) = reports id [node] ++ reports id nodes := by
  unfold reports
  rw [← List.map_append, ← List.filter_append, List.singleton_append]

theorem reports_singleton (id : String) (node : NodeInfo) :
    reports id [node] = if node.id = id then [node.health] else [] := by
  unfold reports
  by_cases h : node.id = id
  · rw [if_pos h, List.filter_cons_of_pos (by simpa using h), List.filter_nil, List.map_cons,
      List.map_nil]
  · rw [if_neg h, List.filter_cons_of_neg (by simpa using h), List.filter_nil, List.map_nil]

theorem reports_fixUnroutableAddrs (id conn : String) (nodes : List NodeInfo) :
    reports id (fixUnroutableAddrs conn nodes) = reports id nodes := by
  simp [reports, fixUnroutableAddrs, List.filter_map, Function.comp_def]

theorem mem_reports {id : String} {nodes : List NodeInfo} {health : ServiceHealth}
    (h : health ∈ reports id nodes) : ∃ node ∈ nodes, node.id = id ∧ node.health = health := by
  obtain ⟨node, hn, rfl⟩ := List.mem_map.mp h
  obtain ⟨hmem, hid⟩ := List.mem_filter.mp hn
  exact ⟨node, hmem, by simpa using hid, rfl⟩

/-! ## One table -/

/-- The table holds the newest report it was offered about every node with a valid id but its own,
and was offered none about the nodes it does not list; it has no report under an invalid id. -/
structure Newest (ownId : String) (kn : NodeMap) (offers : String → List ServiceHealth) : Prop where
  held : ∀ id node, kn.lookup id = some node → isValidNodeId id = true → id ≠ ownId →
    IsNewest ServiceHealth.rank .default (offers id) node.health
  absent : ∀ id, kn.lookup id = none → isValidNodeId id = true → offers id = []
  unset : ∀ id node, kn.lookup id = some node → isValidNodeId id = false → node.health = .default

section Newest

variable {ownId : String} {kn : NodeMap} {offers : String → List ServiceHealth} {now : Instant}

theorem Newest.mergeNode {acc : NodeMap × Bool} (h : Newest ownId acc.1 offers) (node : NodeInfo) :
    Newest ownId (Stouter.mergeNode ownId now acc node).1
      fun id => offers id ++ reports id [node] := by
  constructor
  · intro id n hn hv hid
    rw [lookup_mergeNode] at hn
    rw [reports_singleton]
    by_cases he : node.id = id
    · subst he
      rw [if_pos ⟨hv, rfl⟩, received, if_neg hid] at hn
      rw [if_pos rfl]
      cases hl : acc.1.lookup node.id with
      | some existing =>
        rw [hl] at hn
        obtain rfl := Option.some.inj hn
        rw [Option.map_some, Option.getD_some, health_mergeEntry]
        exact (h.held node.id existing hl hv hid).concat node.health
      | none =>
        rw [hl] at hn
        obtain rfl := Option.some.inj hn
        rw [h.absent node.id hl hv]
        exact IsNewest.first (Nat.zero_le _)
    · rw [if_neg fun hc => he hc.2] at hn
      rw [if_neg he, List.append_nil]
      exact h.held id n hn hv hid
  · intro id hn hv
    rw [lookup_mergeNode] at hn
    split_ifs at hn with hc
    have hne : node.id ≠ id := by
      rintro rfl
      exact hc ⟨hv, rfl⟩
    rw [reports_singleton, if_neg hne, h.absent id hn hv, List.append_nil]
  · intro id n hn hv
    have hc : ¬ (isValidNodeId node.id = true ∧ node.id = id) := by
      rintro ⟨hv', rfl⟩
      rw [hv] at hv'
      cases hv'
    rw [lookup_mergeNode, if_neg hc] at hn
    exact h.unset id n hn hv

theorem Newest.foldl {acc : NodeMap × Bool} (h : Newest ownId acc.1 offers)
    (nodes : List NodeInfo) :
    Newest ownId (nodes.foldl (Stouter.mergeNode ownId now) acc).1
      fun id => offers id ++ reports id nodes := by
  induction nodes generalizing acc offers with
  | nil => simpa [reports] using h
  | cons node nodes ih =>
    simp only [reports_cons _ node nodes, ← List.append_assoc]
    exact ih (h.mergeNode node)

theorem Newest.mapValues (h : Newest ownId kn offers) {f : String → NodeInfo → NodeInfo}
    (hf : ∀ id node, (f id node).health = node.health) :
    Newest ownId (HashMap.mapValues f kn) offers := by
  have hold : ∀ id node, (HashMap.mapValues f kn).lookup id = some node →
      ∃ node', kn.lookup id = some node' ∧ node.health = node'.health := by
    intro id node hn
    rw [HashMap.lookup_mapValues] at hn
    obtain ⟨node', hn', rfl⟩ := Option.map_eq_some_iff.mp hn
    exact ⟨node', hn', hf id node'⟩
  constructor
  · intro id node hn hv hid
    obtain ⟨node', hn', hh⟩ := hold id node hn
    rw [hh]
    exact h.held id node' hn' hv hid
  · intro id hn hv
    rw [HashMap.lookup_mapValues] at hn
    exact h.absent id (Option.map_eq_none_iff.mp hn) hv
  · intro id node hn hv
    obtain ⟨node', hn', hh⟩ := hold id node hn
    rw [hh]
    exact h.unset id node' hn' hv

theorem Newest.mergeNodes (h : Newest ownId kn offers) (nodes : List NodeInfo)
    (contactAddr : Option String) :
    Newest ownId (Stouter.mergeNodes ownId nodes contactAddr now kn).1
      fun id => offers id ++ reports id nodes := by
  have hfold : Newest ownId (nodes.foldl (Stouter.mergeNode ownId now) (kn, false)).1
      fun id => offers id ++ reports id nodes := Newest.foldl h nodes
  unfold Stouter.mergeNodes
  cases contactAddr with
  | none => exact hfold
  | some addr =>
    refine hfold.mapValues (f := fun _ node => if !node.addr.isEmpty && node.addr == addr then
      { node with lastSeen := some now } else node) fun id node => ?_
    split_ifs <;> rfl

/-- Offers about a node are forgotten with its entry. -/
def forget (kn : NodeMap) (offers : String → List ServiceHealth) (id : String) :
    List ServiceHealth :=
  if (kn.lookup id).isSome then offers id else []

theorem Newest.forget (h : Newest ownId kn offers) : Newest ownId kn (forget kn offers) := by
  constructor
  · intro id node hn hv hid
    rw [Stouter.forget, hn, Option.isSome_some, if_pos rfl]
    exact h.held id node hn hv hid
  · intro id hn _
    rw [Stouter.forget, hn, Option.isSome_none, if_neg (by simp)]
  · exact h.unset

theorem health_applyControl (d : Daemon) (now : Instant) (msg : Message) :
    HashMap.All (fun id node => (∃ old, d.knownNodes.lookup id = some old ∧
        node.health = old.health) ∨ d.knownNodes.lookup id = none ∧ node.health = .default)
      (Cluster.applyControl d now msg) := by
  have hold : HashMap.All (fun id node => (∃ old, d.knownNodes.lookup id = some old ∧
      node.health = old.health) ∨ d.knownNodes.lookup id = none ∧ node.health = .default)
      d.knownNodes := fun id node hn => .inl ⟨node, hn, rfl⟩
  cases msg with
  | nodeJoin id addr => exact all_applyNodeJoin hold (fun _ hn => .inr ⟨hn, rfl⟩) fun _ _ h => h
  | nodeLeave id => exact hold.erase
  | reverseRegistration id timestampMs =>
    exact all_registerReverse hold (fun hn => .inr ⟨hn, rfl⟩) fun _ h => h
  | _ => exact hold

theorem Newest.applyControl {d : Daemon} (h : Newest d.config.nodeId d.knownNodes offers)
    (now : Instant) (msg : Message) :
    Newest d.config.nodeId (Cluster.applyControl d now msg)
      (Stouter.forget (Cluster.applyControl d now msg) offers) := by
  constructor
  · intro id node hn hv hid
    rw [Stouter.forget, hn, Option.isSome_some, if_pos rfl]
    rcases health_applyControl d now msg id node hn with ⟨old, hold, hh⟩ | ⟨hnone, hh⟩
    · rw [hh]
      exact h.held id old hold hv hid
    · rw [hh, h.absent id hnone hv]
      exact IsNewest.nil _ _
  · intro id hn _
    rw [Stouter.forget, hn, Option.isSome_none, if_neg (by simp)]
  · intro id node hn hv
    rcases health_applyControl d now msg id node hn with ⟨old, hold, hh⟩ | ⟨-, hh⟩
    · rw [hh]
      exact h.unset id old hold hv
    · exact hh

end Newest

/-! ## The observed cluster -/

/-- The cluster with every report its nodes published, and the reports about a node that a daemon
was offered since it created the entry. -/
structure Observed (ι : Type*) where
  cluster : Cluster ι
  published : ι → List ServiceHealth
  offered : ι → String → List ServiceHealth

namespace Observed

variable {ι : Type*} {o o' : Observed ι} {a : ClusterAct ι}

/-- Node ids are unique; a daemon without an id is no node. -/
def UniqueIds (s : Cluster ι) : Prop :=
  ∀ i j, (s.daemons i).config.nodeId ≠ "" →
    (s.daemons i).config.nodeId = (s.daemons j).config.nodeId → i = j

def Started (o : Observed ι) : Prop :=
  o.cluster.Booted ∧ UniqueIds o.cluster ∧ (∀ i, o.published i = []) ∧ ∀ p id, o.offered p id = []

/-- A node publishes its reports with increasing versions. -/
def Increasing (s : Cluster ι) : ClusterAct ι → Prop
  | .publishHealth i health => (s.daemons i).localHealth.version < health.version
  | _ => True

/-- The report is unset or was published by the node with that id. -/
def Genuine (o : Observed ι) (id : String) (health : ServiceHealth) : Prop :=
  health = .default ∨
    ∃ i, (o.cluster.daemons i).config.nodeId = id ∧ id ≠ "" ∧ health ∈ o.published i

/-- What is published, what is on its way and what is held fit together. -/
structure Reported (o : Observed ι) : Prop where
  unique : UniqueIds o.cluster
  keyed : ∀ i, Keyed (o.cluster.daemons i).knownNodes
  current : ∀ i, (o.cluster.daemons i).localHealth = .default ∨
    (o.cluster.daemons i).localHealth ∈ o.published i
  latest : ∀ i, ∀ r ∈ o.published i,
    0 < r.rank ∧ r.rank ≤ (o.cluster.daemons i).localHealth.rank
  ordered : ∀ i, (o.published i).Pairwise fun r r' => r.rank < r'.rank
  tables : ∀ p, HashMap.All (fun id node => Genuine o id node.health)
    (o.cluster.daemons p).knownNodes
  net : ∀ e ∈ o.cluster.net, ∀ config nodes, e.msg = .sync config nodes →
    ∀ node ∈ nodes, Genuine o node.id node.health
  newest : ∀ p, Newest (o.cluster.daemons p).config.nodeId (o.cluster.daemons p).knownNodes
    (o.offered p)
  offers : ∀ p id, ∀ r ∈ o.offered p id, Genuine o id r

theorem genuine_received {ownId : String} {node : NodeInfo} (h : Genuine o node.id node.health) :
    Genuine o node.id (received ownId node).health := by
  unfold received
  split_ifs
  · exact .inl rfl
  · exact h

theorem genuine_mergedTable {d : Daemon} {nodes : List NodeInfo} (conn : String)
    (contact : Option String) (now : Instant)
    (hd : HashMap.All (fun id node => Genuine o id node.health) d.knownNodes)
    (hn : ∀ node ∈ nodes, Genuine o node.id node.health) :
    HashMap.All (fun id node => Genuine o id node.health)
      (Cluster.mergedTable d nodes conn contact now) := by
  have hfix : ∀ node ∈ (if conn.isEmpty then nodes else fixUnroutableAddrs conn nodes),
      Genuine o node.id node.health := by
    split_ifs
    · exact hn
    · intro node hmem
      obtain ⟨node', hn', rfl⟩ := List.mem_map.mp hmem
      exact hn node' hn'
  apply all_mergeNodes hd
  · exact fun node hmem _ => genuine_received (hfix node hmem)
  · intro node hmem _ existing he
    rw [mergeEntry_health]
    split_ifs
    · exact he
    · exact genuine_received (hfix node hmem)
  · exact fun _ _ h => h

theorem rank_default : ServiceHealth.default.rank = 0 := rfl

theorem Reported.genuine_inj (hs : Reported o) {id : String} {r r' : ServiceHealth}
    (hr : Genuine o id r) (hr' : Genuine o id r') (he : r.rank = r'.rank) : r = r' := by
  rcases hr with rfl | ⟨i, hi, hne, hr⟩
  · rcases hr' with rfl | ⟨j, _, _, hr'⟩
    · rfl
    · have hpos := (hs.latest j r' hr').1
      rw [← he, rank_default] at hpos
      omega
  · rcases hr' with rfl | ⟨j, hj, _, hr'⟩
    · have hpos := (hs.latest i r hr).1
      rw [he, rank_default] at hpos
      omega
    · obtain rfl : i = j := hs.unique i j (hi ▸ hne) (hi.trans hj.symm)
      have hnodup : ((o.published i).map ServiceHealth.rank).Nodup :=
        (List.pairwise_map.mpr (hs.ordered i)).imp fun hlt => Nat.ne_of_lt hlt
      exact List.inj_on_of_nodup_map hnodup hr hr' he

theorem Reported.held (hs : Reported o) {p x : ι} (hpx : p ≠ x) {node : NodeInfo}
    (hv : isValidNodeId (o.cluster.daemons x).config.nodeId = true)
    (hn : (o.cluster.daemons p).knownNodes.lookup (o.cluster.daemons x).config.nodeId =
      some node) :
    IsNewest ServiceHealth.rank .default (o.offered p (o.cluster.daemons x).config.nodeId)
      node.health := by
  refine (hs.newest p).held _ node hn hv fun hid => ?_
  refine hpx (hs.unique x p (fun hempty => ?_) hid).symm
  rw [hempty] at hv
  exact absurd hv (by decide)

theorem Reported.eq_default (hs : Reported o) {id : String} {r : ServiceHealth}
    (hr : Genuine o id r) (hle : r.rank ≤ ServiceHealth.default.rank) : r = .default := by
  rcases hr with rfl | ⟨i, -, -, hr⟩
  · rfl
  · have hpos := (hs.latest i r hr).1
    rw [rank_default] at hle
    omega

/-- The table holds the newest report about a node if it takes any, or was offered none. -/
theorem Reported.newest_iff (hs : Reported o) {p x : ι} (hpx : p ≠ x) {node : NodeInfo}
    (hn : (o.cluster.daemons p).knownNodes.lookup (o.cluster.daemons x).config.nodeId =
      some node) :
    IsNewest ServiceHealth.rank .default (o.offered p (o.cluster.daemons x).config.nodeId)
        node.health ↔
      isValidNodeId (o.cluster.daemons x).config.nodeId = true ∨
        ∀ r ∈ o.offered p (o.cluster.daemons x).config.nodeId, r = .default := by
  by_cases hv : isValidNodeId (o.cluster.daemons x).config.nodeId = true
  · exact iff_of_true (hs.held hpx hv hn) (.inl hv)
  · have hunset := (hs.newest p).unset _ node hn (by simpa using hv)
    rw [hunset]
    constructor
    · exact fun h => .inr fun r hr => hs.eq_default (hs.offers p _ r hr) (h.le r hr)
    · intro h
      refine ⟨.inl rfl, le_rfl, fun r hr => ?_⟩
      rw [h.resolve_left hv r hr]

variable [DecidableEq ι] {http : HttpCrate}

/-- The report that a step makes a node publish. -/
def publishes (i : ι) : ClusterAct ι → List ServiceHealth
  | .publishHealth j health => if j = i then [health] else []
  | _ => []

/-- The reports about a node in the payload that a step makes a daemon merge. -/
def arrives (s : Cluster ι) (p : ι) (id : String) : ClusterAct ι → List ServiceHealth
  | .mergeNodes k _ _ _ =>
    match s.net[k]? with
    | some ⟨_, dst, .sync _ nodes⟩ => if dst = p then reports id nodes else []
    | _ => []
  | _ => []

def next (http : HttpCrate) (o : Observed ι) (a : ClusterAct ι) : Option (Observed ι) :=
  (o.cluster.next http a).map fun s =>
    { cluster := s
      published := fun i => o.published i ++ publishes i a
      offered := fun p =>
        forget (s.daemons p).knownNodes fun id => o.offered p id ++ arrives o.cluster p id a }

def system (http : HttpCrate) : Transition (Observed ι) (ClusterAct ι) :=
  (Transition.ofNext Started (next http)).restrict fun o a _ => Increasing o.cluster a

theorem next_cases (h : next http o a = some o') :
    o.cluster.next http a = some o'.cluster ∧
      (∀ i, o'.published i = o.published i ++ publishes i a) ∧
      ∀ p, o'.offered p = forget (o'.cluster.daemons p).knownNodes fun id =>
        o.offered p id ++ arrives o.cluster p id a := by
  obtain ⟨s, hs, rfl⟩ := Option.map_eq_some_iff.mp h
  exact ⟨hs, fun _ => rfl, fun _ => rfl⟩

theorem Genuine.next {id : String} {health : ServiceHealth} (hg : Genuine o id health)
    (h : next http o a = some o') : Genuine o' id health := by
  obtain ⟨hs, hp, _⟩ := next_cases h
  apply hg.imp_right
  rintro ⟨i, hi, hne, hr⟩
  refine ⟨i, ?_, hne, ?_⟩
  · rw [Cluster.config_next hs, hi]
  · rw [hp]
    exact List.mem_append_left _ hr

theorem publishes_cases (h : o.cluster.next http a = some o'.cluster) (i : ι) :
    (publishes i a = [] ∧
        (o'.cluster.daemons i).localHealth = (o.cluster.daemons i).localHealth) ∨
      a = .publishHealth i (o'.cluster.daemons i).localHealth ∧
        publishes i a = [(o'.cluster.daemons i).localHealth] := by
  by_cases ha : ∃ health, a = .publishHealth i health
  · obtain ⟨health, rfl⟩ := ha
    have hd : (o'.cluster.daemons i).localHealth = health := by
      rw [← Option.some.inj h, Cluster.setDaemon_daemons, if_pos rfl]
    rw [hd]
    exact .inr ⟨rfl, if_pos rfl⟩
  · have hnil : publishes i a = [] := by
      cases a with
      | publishHealth j health => exact if_neg fun hj => ha ⟨health, by rw [hj]⟩
      | _ => rfl
    refine .inl ⟨hnil, ?_⟩
    rcases Cluster.daemon_cases h i with ⟨hs, _⟩ | ⟨health, hp, _⟩ |
      ⟨_, _, _, _, _, _, _, _, _, hd⟩ | ⟨_, _, _, _, _, _, hd⟩
    · exact hs.2.2
    · exact absurd ⟨health, hp⟩ ha
    · rw [hd]
    · rw [hd]

/-- The reports that arrive at a daemon are those of the node list it merges. -/
theorem newest_next (h : o.cluster.next http a = some o'.cluster) (p : ι)
    {offers : String → List ServiceHealth}
    (hn : Newest (o.cluster.daemons p).config.nodeId (o.cluster.daemons p).knownNodes offers) :
    Newest (o.cluster.daemons p).config.nodeId (o'.cluster.daemons p).knownNodes
      (forget (o'.cluster.daemons p).knownNodes fun id =>
        offers id ++ arrives o.cluster p id a) := by
  rcases Cluster.daemon_cases h p with ⟨hs, hother⟩ | ⟨health, rfl, hd⟩ |
    ⟨k, conn, contact, now, src, config, nodes, rfl, he, hd⟩ | ⟨k, now, src, msg, rfl, he, hd⟩
  · have hnil : ∀ id, arrives o.cluster p id a = [] := by
      intro id
      cases a with
      | mergeNodes k conn contact now =>
        unfold arrives
        dsimp only
        split
        · rename_i he
          exact if_neg (hother k _ rfl he)
        · rfl
      | _ => rfl
    simp only [hnil, List.append_nil]
    rw [hs.2.1]
    exact hn.forget
  · simp only [arrives, List.append_nil]
    rw [hd]
    exact hn.forget
  · have harr : ∀ id, arrives o.cluster p id (.mergeNodes k conn contact now) =
        reports id (if conn.isEmpty then nodes else fixUnroutableAddrs conn nodes) := by
      intro id
      have hrep : arrives o.cluster p id (.mergeNodes k conn contact now) = reports id nodes := by
        simp [arrives, he]
      rw [hrep]
      split_ifs
      · rfl
      · rw [reports_fixUnroutableAddrs]
    simp only [harr]
    rw [hd]
    exact (hn.mergeNodes _ contact).forget
  · simp only [arrives, List.append_nil]
    rw [hd]
    exact hn.applyControl now msg

theorem Reported.tables_next (hs : Reported o) (h : next http o a = some o') (p : ι) :
    HashMap.All (fun id node => Genuine o' id node.health) (o'.cluster.daemons p).knownNodes := by
  obtain ⟨hc, _, _⟩ := next_cases h
  have hold : HashMap.All (fun id node => Genuine o' id node.health)
      (o.cluster.daemons p).knownNodes := fun id node hn => (hs.tables p id node hn).next h
  rcases Cluster.daemon_cases hc p with ⟨hsame, _⟩ | ⟨_, _, hd⟩ |
    ⟨_, conn, contact, now, _, config, nodes, _, he, hd⟩ | ⟨_, now, _, msg, _, _, hd⟩
  · rw [hsame.2.1]
    exact hold
  · rw [hd]
    exact hold
  · rw [hd]
    apply genuine_mergedTable conn contact now hold
    intro node hmem
    exact (hs.net _ (List.mem_of_getElem? he) config nodes rfl node hmem).next h
  · rw [hd]
    intro id node hn
    rcases health_applyControl _ now msg id node hn with ⟨old, hlook, hh⟩ | ⟨_, hh⟩
    · rw [hh]
      exact hold id old hlook
    · exact .inl hh

theorem Reported.net_next (hs : Reported o) (h : next http o a = some o') {e : Envelope ι}
    (he : e ∈ o'.cluster.net) {config : DynamicConfig} {nodes : List NodeInfo}
    (hm : e.msg = .sync config nodes) {node : NodeInfo} (hmem : node ∈ nodes) :
    Genuine o' node.id node.health := by
  obtain ⟨hc, _, _⟩ := next_cases h
  apply Genuine.next (h := h)
  rcases Cluster.sent_next hc he with he | ⟨_, hsent⟩
  · exact hs.net e he config nodes hm node hmem
  · rw [hm] at hsent
    rcases mem_snapshotNodes (hs.keyed e.src) (hsent.2.mem_iff.mp hmem) with
      ⟨hne, hid, _, hhealth, _⟩ | ⟨_, hlook⟩
    · rw [hhealth, hid]
      exact (hs.current e.src).imp_right fun hr => ⟨e.src, rfl, hne, hr⟩
    · exact hs.tables e.src _ node hlook

theorem Reported.offers_next (hs : Reported o) (h : next http o a = some o') {p : ι} {id : String}
    {r : ServiceHealth} (hr : r ∈ o'.offered p id) : Genuine o' id r := by
  obtain ⟨hc, _, hoff⟩ := next_cases h
  apply Genuine.next (h := h)
  rw [hoff, forget] at hr
  split_ifs at hr
  · rcases List.mem_append.mp hr with hr | hr
    · exact hs.offers p id r hr
    · cases a with
      | mergeNodes k conn contact now =>
        unfold arrives at hr
        dsimp only at hr
        split at hr
        · rename_i src dst config nodes he
          split_ifs at hr
          · obtain ⟨node, hmem, rfl, rfl⟩ := mem_reports hr
            exact hs.net _ (List.mem_of_getElem? he) config nodes rfl node hmem
          · simp at hr
        · simp at hr
      | _ => simp [arrives] at hr
  · simp at hr

theorem Reported.step (hs : Reported o) (h : (system http).step o a o') : Reported o' := by
  obtain ⟨hn : next http o a = some o', hinc⟩ := h
  obtain ⟨hc, hpub, hoff⟩ := next_cases hn
  have hconf := Cluster.config_next hc
  refine ⟨?_, Cluster.keyed_next hs.keyed hc, fun i => ?_, fun i r hr => ?_, fun i => ?_,
    hs.tables_next hn, fun e he config nodes hm node => hs.net_next hn he hm, fun p => ?_,
    fun p id r => hs.offers_next hn⟩
  · intro i j hne hij
    rw [hconf] at hne
    rw [hconf, hconf] at hij
    exact hs.unique i j hne hij
  · rw [hpub]
    rcases publishes_cases hc i with ⟨_, hl⟩ | ⟨_, hp⟩
    · rw [hl]
      exact (hs.current i).imp_right (List.mem_append_left _)
    · exact .inr (by simp [hp])
  · rw [hpub] at hr
    rcases publishes_cases hc i with ⟨hp, hl⟩ | ⟨rfl, hp⟩
    · rw [hp, List.append_nil] at hr
      rw [hl]
      exact hs.latest i r hr
    · have hlt := UInt64.lt_iff_toNat_lt.mp hinc
      rw [hp] at hr
      rcases List.mem_append.mp hr with hr | hr
      · obtain ⟨hpos, hle⟩ := hs.latest i r hr
        exact ⟨hpos, hle.trans hlt.le⟩
      · rw [List.mem_singleton.mp hr]
        exact ⟨(Nat.zero_le _).trans_lt hlt, le_rfl⟩
  · rw [hpub]
    rcases publishes_cases hc i with ⟨hp, _⟩ | ⟨rfl, hp⟩
    · rw [hp, List.append_nil]
      exact hs.ordered i
    · have hlt := UInt64.lt_iff_toNat_lt.mp hinc
      rw [hp]
      refine List.pairwise_append.mpr ⟨hs.ordered i, List.pairwise_singleton _ _, ?_⟩
      intro r hr r' hr'
      rw [List.mem_singleton.mp hr']
      exact (hs.latest i r hr).2.trans_lt hlt
  · rw [hconf, hoff]
    exact newest_next hc p (hs.newest p)

theorem reported_of_reachable (h : (system http).Reachable o) : Reported o := by
  refine h.invariant (I := Reported) ?_ fun _ _ _ hs h => hs.step h
  rintro o ⟨hboot, huniq, hpub, hoff⟩
  refine ⟨huniq, hboot.all _, fun i => .inl (hboot.2 i).2, ?_, ?_, hboot.all _, ?_, fun p => ?_, ?_⟩
  · simp [hpub]
  · simp [hpub]
  · simp [hboot.1]
  · exact ⟨fun id node hn => by simp [hboot.2 p] at hn, fun id _ _ => hoff p id,
      fun id node hn => by simp [hboot.2 p] at hn⟩
  · simp [hoff]

/-! ## Last writer wins -/

/-- The runs that do not remove a daemon's entry for a node. -/
def kept (http : HttpCrate) (p : ι) (id : String) : Transition (Observed ι) (ClusterAct ι) :=
  (system http).restrict fun _ _ o' => ((o'.cluster.daemons p).knownNodes.lookup id).isSome

theorem config_reaches (h : (system http).Reaches o o') (i : ι) :
    (o'.cluster.daemons i).config = (o.cluster.daemons i).config := by
  refine h.preserves (I := fun o' => (o'.cluster.daemons i).config = (o.cluster.daemons i).config)
    ?_ rfl
  rintro o₁ a o₂ hc ⟨hn : next http o₁ a = some o₂, _⟩
  rw [Cluster.config_next (next_cases hn).1, hc]

theorem offered_subset {p : ι} {id : String} (h : (kept http p id).Reaches o o') :
    o.offered p id ⊆ o'.offered p id := by
  refine h.preserves (I := fun o' => o.offered p id ⊆ o'.offered p id) ?_ (List.Subset.refl _)
  rintro o₁ a o₂ hsub ⟨⟨hn : next http o₁ a = some o₂, _⟩, hkept⟩
  obtain ⟨_, _, hoff⟩ := next_cases hn
  rw [hoff, forget, if_pos hkept]
  exact fun r hr => List.mem_append_left _ (hsub hr)

/-- What a daemon holds about another node is unset or published by that node, gets only newer
while the entry stays, and depends on what was offered but not on the order. It is the newest report
that was offered since the entry was created exactly when the id of the node is valid, or only unset
reports were offered. -/
theorem health_last_writer (h : (system http).Reachable o) {p x : ι} (hpx : p ≠ x)
    {node : NodeInfo}
    (hn : (o.cluster.daemons p).knownNodes.lookup (o.cluster.daemons x).config.nodeId =
      some node) :
    (node.health = .default ∨ node.health ∈ o.published x) ∧
    (∀ o' node', (kept http p (o.cluster.daemons x).config.nodeId).Reaches o o' →
      (o'.cluster.daemons p).knownNodes.lookup (o.cluster.daemons x).config.nodeId = some node' →
        node.health.version ≤ node'.health.version) ∧
    (∀ o' node', (system http).Reachable o' →
      (o'.cluster.daemons x).config.nodeId = (o.cluster.daemons x).config.nodeId →
      (o'.cluster.daemons p).knownNodes.lookup (o.cluster.daemons x).config.nodeId = some node' →
      (∀ r, r ∈ o'.offered p (o.cluster.daemons x).config.nodeId ↔
        r ∈ o.offered p (o.cluster.daemons x).config.nodeId) → node'.health = node.health) ∧
    (IsNewest ServiceHealth.rank .default (o.offered p (o.cluster.daemons x).config.nodeId)
        node.health ↔
      isValidNodeId (o.cluster.daemons x).config.nodeId = true ∨
        ∀ r ∈ o.offered p (o.cluster.daemons x).config.nodeId, r = .default) := by
  have hs := reported_of_reachable h
  refine ⟨?_, fun o' node' hr hn' => ?_, fun o' node' h' hx hn' hsame => ?_, hs.newest_iff hpx hn⟩
  · apply (hs.tables p _ node hn).imp_right
    rintro ⟨i, hi, hne, hr⟩
    obtain rfl : i = x := hs.unique i x (hi ▸ hne) hi
    exact hr
  · have hsys := hr.of_restrict
    have hs' := reported_of_reachable (h.trans hsys)
    apply UInt64.le_iff_toNat_le.mpr
    by_cases hv : isValidNodeId (o.cluster.daemons x).config.nodeId = true
    · rw [← config_reaches hsys x] at hn'
      have hnew' := hs'.held hpx (by rwa [config_reaches hsys x]) hn'
      rw [config_reaches hsys x] at hnew'
      rcases (hs.held hpx hv hn).mem with hdef | hmem
      · rw [hdef]
        exact Nat.zero_le _
      · exact hnew'.le _ (offered_subset hr hmem)
    · rw [(hs.newest p).unset _ node hn (by simpa using hv)]
      exact Nat.zero_le _
  · have hs' := reported_of_reachable h'
    by_cases hv : isValidNodeId (o.cluster.daemons x).config.nodeId = true
    · rw [← hx] at hn' hsame
      have hnew' := hs'.held hpx (by rwa [hx]) hn'
      rw [hx] at hnew' hsame
      apply (hs.held hpx hv hn).unique hnew' hsame
      have hgen : ∀ r ∈ ServiceHealth.default :: o.offered p (o.cluster.daemons x).config.nodeId,
          Genuine o (o.cluster.daemons x).config.nodeId r := by
        intro r hr
        rcases List.mem_cons.mp hr with rfl | hr
        · exact .inl rfl
        · exact hs.offers p _ r hr
      exact fun r hr r' hr' => hs.genuine_inj (hgen r hr) (hgen r' hr')
    · rw [(hs.newest p).unset _ node hn (by simpa using hv),
        (hs'.newest p).unset _ node' hn' (by simpa using hv)]

def start : Observed Cluster.Member :=
  ⟨Cluster.membersOf Cluster.startedNode, fun _ => [], fun _ _ => []⟩

theorem started_start : Started start := by
  refine ⟨Cluster.booted_membersOf fun _ => ⟨rfl, rfl⟩, ?_, fun _ => rfl, fun _ _ => rfl⟩
  intro i j
  cases i <;> cases j <;> decide

/-- `x` has found its service `api` unhealthy and sent `p` a `Sync`, which `p` has merged. -/
def reportedX : Observed Cluster.Member :=
  Transition.run (next plainHttp) start
    [.publishHealth .x ⟨5, ["api"]⟩,
      .sendSync .x .p [⟨"x", "10.0.0.1:8080", none, none, ⟨5, ["api"]⟩⟩],
      .mergeNodes 0 "10.0.0.1:41000" none 3]

theorem health_last_writer_reportedX :
    (system plainHttp).Reachable reportedX ∧ ∃ node,
      (reportedX.cluster.daemons .p).knownNodes.lookup "x" = some node ∧
        node.health ∈ reportedX.published .x := by
  have h₁ : (system plainHttp).Reachable
      (Transition.run (next plainHttp) start [.publishHealth .x ⟨5, ["api"]⟩]) :=
    (Transition.Reachable.of_init (S := system plainHttp) started_start).snoc
      (a := ClusterAct.publishHealth .x ⟨5, ["api"]⟩) ⟨rfl, (by decide : (0 : UInt64) < 5)⟩
  have h₂ : (system plainHttp).Reachable
      (Transition.run (next plainHttp) start [.publishHealth .x ⟨5, ["api"]⟩,
        .sendSync .x .p [⟨"x", "10.0.0.1:8080", none, none, ⟨5, ["api"]⟩⟩]]) :=
    h₁.snoc (a := ClusterAct.sendSync .x .p [⟨"x", "10.0.0.1:8080", none, none, ⟨5, ["api"]⟩⟩])
      ⟨rfl, trivial⟩
  have hr : (system plainHttp).Reachable reportedX :=
    h₂.snoc (a := ClusterAct.mergeNodes 0 "10.0.0.1:41000" none 3) ⟨rfl, trivial⟩
  have hn : (reportedX.cluster.daemons .p).knownNodes.lookup
      (reportedX.cluster.daemons .x).config.nodeId =
        some ⟨"x", "10.0.0.1:8080", none, some 3, ⟨5, ["api"]⟩⟩ := rfl
  refine ⟨hr, _, hn, ?_⟩
  exact (health_last_writer hr (by decide) hn).1.resolve_left (by decide)

def colonStart : Observed Cluster.Member :=
  ⟨Cluster.membersOf fun id => Cluster.startedNode (if id = "x" then "x:1" else id),
    fun _ => [], fun _ _ => []⟩

/-- `x` has found its service `api` unhealthy, registered a reverse connection at `p` and sent `p` a
`Sync`, which `p` has merged. -/
def reportedColon : Observed Cluster.Member :=
  Transition.run (next plainHttp) colonStart
    [.publishHealth .x ⟨5, ["api"]⟩, .sendReverse .x .p 1000, .control 0 3,
      .sendSync .x .p [⟨"x:1", "10.0.0.1:8080", none, none, ⟨5, ["api"]⟩⟩],
      .mergeNodes 1 "10.0.0.1:41000" none 4]

theorem not_newest_reportedColon :
    (system plainHttp).Reachable reportedColon ∧ ∃ node,
      (reportedColon.cluster.daemons .p).knownNodes.lookup
        (reportedColon.cluster.daemons .x).config.nodeId = some node ∧
      ¬ IsNewest ServiceHealth.rank .default
        (reportedColon.offered .p (reportedColon.cluster.daemons .x).config.nodeId)
        node.health := by
  have h₀ : (system plainHttp).Reachable colonStart := by
    refine .of_init ⟨Cluster.booted_membersOf fun _ => ⟨rfl, rfl⟩, ?_, fun _ => rfl, fun _ _ => rfl⟩
    intro i j
    cases i <;> cases j <;> decide
  have h₁ := h₀.snoc (a := ClusterAct.publishHealth Cluster.Member.x ⟨5, ["api"]⟩)
    ⟨rfl, (by decide : (0 : UInt64) < 5)⟩
  have h₂ := h₁.snoc (a := ClusterAct.sendReverse Cluster.Member.x .p 1000) ⟨rfl, trivial⟩
  have h₃ := h₂.snoc (a := ClusterAct.control 0 3) ⟨rfl, trivial⟩
  have h₄ := h₃.snoc (a := ClusterAct.sendSync Cluster.Member.x .p
    [⟨"x:1", "10.0.0.1:8080", none, none, ⟨5, ["api"]⟩⟩]) ⟨rfl, trivial⟩
  have h₅ := h₄.snoc (a := ClusterAct.mergeNodes 1 "10.0.0.1:41000" none 4) ⟨rfl, trivial⟩
  refine ⟨h₅, _, rfl, fun hnew => ?_⟩
  exact absurd (hnew.le ⟨5, ["api"]⟩ (by decide)) (by decide)

end Observed

end Stouter
