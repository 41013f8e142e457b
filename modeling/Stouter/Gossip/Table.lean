import Mathlib.Data.List.Induction
import Stouter.Gossip.Cluster
import Stouter.Subscribe.Instances

/-! # The table of one daemon

A daemon under arbitrary traffic. The payloads need not come from daemons that
follow the protocol, so every check has to be made by the handler that writes
the table. `handleReverseRegistration` checks the timestamp but not the id:
the table stays well formed exactly as long as the registrations it accepts
name valid ids.
-/

namespace Stouter

/-- Maximum timestamp skew of a reverse registration, in milliseconds. -/
def maxSkewMs : UInt64 := 30000

/-- `u64::abs_diff`. -/
def absDiff (a b : UInt64) : UInt64 := if a < b then b - a else a - b

/-- Verify the timestamp, then enter the node with this daemon as its relay. -/
def handleReverseRegistration (cfg : Config) (nodeId : String) (timestampMs nowMs : UInt64)
    (now : Instant) (kn : NodeMap) : Except String NodeMap :=
  let skew := absDiff nowMs timestampMs
  if skew > maxSkewMs then
    .error s!"reverse registration timestamp skew too large: {skew}ms (node {nodeId})"
  else
    .ok (registerReverse nodeId cfg.peerAddr now kn)

/-- What reaches the membership table of a daemon, and the reports of its health checker. -/
inductive TableAct
  | inboundSync (peerAddr : String) (nodes : List NodeInfo) (now : Instant)
  | outboundSync (addr : String) (nodes : List NodeInfo) (now : Instant)
  | nodeJoin (id addr : String) (now : Instant)
  | nodeLeave (id : String)
  | reverseRegistration (nodeId : String) (timestampMs nowMs : UInt64) (now : Instant)
  | publishHealth (health : ServiceHealth)

/-- A registration that the timestamp check lets through names a valid id. -/
def TableAct.Admissible : TableAct → Prop
  | .reverseRegistration nodeId timestampMs nowMs _ =>
    absDiff nowMs timestampMs ≤ maxSkewMs → isValidNodeId nodeId
  | _ => True

namespace Daemon

def new (config : Config) (store : Store) : Daemon := ⟨config, store, ∅, .default⟩

def handle (d : Daemon) : TableAct → Daemon
  | .inboundSync peerAddr nodes now =>
    let nodes := if peerAddr.isEmpty then nodes else fixUnroutableAddrs peerAddr nodes
    { d with knownNodes := (mergeNodes d.config.nodeId nodes none now d.knownNodes).1 }
  | .outboundSync addr nodes now =>
    let nodes := fixUnroutableAddrs addr nodes
    { d with knownNodes := (mergeNodes d.config.nodeId nodes (some addr) now d.knownNodes).1 }
  | .nodeJoin id addr now => { d with knownNodes := (applyNodeJoin id addr now d.knownNodes).1 }
  | .nodeLeave id => { d with knownNodes := applyNodeLeave id d.knownNodes }
  | .reverseRegistration nodeId timestampMs nowMs now =>
    match handleReverseRegistration d.config nodeId timestampMs nowMs now d.knownNodes with
    | .ok knownNodes => { d with knownNodes }
    | .error _ => d
  | .publishHealth health => { d with localHealth := health }

def run (config : Config) (store : Store) (acts : List TableAct) : Daemon :=
  acts.foldl handle (new config store)

structure WellFormed (d : Daemon) : Prop where
  valid : ∀ id ∈ d.knownNodes, isValidNodeId id
  keyed : Keyed d.knownNodes
  ownHealth : ∀ node, d.knownNodes.lookup d.config.nodeId = some node → node.health = .default
  ownServices : ∀ index serviceName,
    (SharedState.mk d.config d.knownNodes index d.localHealth).serviceUnhealthy d.config.nodeId
      serviceName = d.localHealth.isUnhealthy serviceName
  distinct : ((snapshotNodes d.config d.localHealth d.knownNodes).map NodeInfo.id).Nodup
  own : d.config.nodeId ≠ "" →
    ((snapshotNodes d.config d.localHealth d.knownNodes).map NodeInfo.id).count
        d.config.nodeId = 1 ∧
      ∀ node ∈ snapshotNodes d.config d.localHealth d.knownNodes, node.id = d.config.nodeId →
        node.health = d.localHealth ∧ node.addr = d.config.selfAddr

/-- The part of well-formedness that is about single entries. -/
def Sane (ownId : String) (id : String) (node : NodeInfo) : Prop :=
  isValidNodeId id ∧ node.id = id ∧ (id = ownId → node.health = .default)

variable {d : Daemon} {a : TableAct}

theorem received_health {ownId : String} {node : NodeInfo} (h : node.id = ownId) :
    (received ownId node).health = .default := by
  simp [received, h]

theorem sane_mergeNodes {ownId : String} {kn : NodeMap} (h : HashMap.All (Sane ownId) kn)
    (nodes : List NodeInfo) (contactAddr : Option String) (now : Instant) :
    HashMap.All (Sane ownId) (mergeNodes ownId nodes contactAddr now kn).1 := by
  apply all_mergeNodes h
  · intro node _ hv
    exact ⟨hv, received_id ownId node, received_health⟩
  · rintro node _ hv existing ⟨_, hid, hown⟩
    refine ⟨hv, (mergeEntry_id existing _).trans hid, fun ho => ?_⟩
    rw [mergeEntry_health, received_health ho, hown ho]
    exact ite_self _
  · exact fun _ _ hs => hs

theorem handle_config (d : Daemon) (a : TableAct) : (d.handle a).config = d.config := by
  cases a with
  | reverseRegistration nodeId timestampMs nowMs now =>
    simp only [handle]
    split <;> rfl
  | _ => rfl

/-- Every handler but that of an inadmissible registration keeps the entries sane. -/
theorem sane_handle (h : HashMap.All (Sane d.config.nodeId) d.knownNodes) (ha : a.Admissible) :
    HashMap.All (Sane d.config.nodeId) (d.handle a).knownNodes := by
  cases a with
  | inboundSync peerAddr nodes now => exact sane_mergeNodes h _ none now
  | outboundSync addr nodes now => exact sane_mergeNodes h _ (some addr) now
  | nodeJoin id addr now =>
    exact all_applyNodeJoin h (fun hv _ => ⟨hv, rfl, fun _ => rfl⟩) fun _ _ hs => hs
  | nodeLeave id => exact h.erase
  | reverseRegistration nodeId timestampMs nowMs now =>
    simp only [handle, handleReverseRegistration]
    split
    · rename_i knownNodes hok
      split_ifs at hok with hskew
      obtain rfl := Except.ok.inj hok
      have hv := ha (UInt64.not_lt.mp hskew)
      exact all_registerReverse h (fun _ => ⟨hv, rfl, fun _ => rfl⟩) fun _ hs => hs
    · exact h
  | publishHealth health => exact h

theorem wellFormed_of_sane (h : HashMap.All (Sane d.config.nodeId) d.knownNodes) :
    WellFormed d := by
  have hkeyed : Keyed d.knownNodes := fun id node hn => (h id node hn).2.1
  have hnodup := snapshotNodes_nodup hkeyed d.config d.localHealth
  refine ⟨fun id hid => ?_, hkeyed, fun node hn => (h _ node hn).2.2 rfl,
    fun index serviceName => ?_, hnodup, fun hne => ⟨?_, fun node hn hid => ?_⟩⟩
  · obtain ⟨node, hn⟩ := HashMap.exists_lookup hid
    exact (h id node hn).1
  · simp [SharedState.serviceUnhealthy]
  · apply List.count_eq_one_of_mem hnodup
    exact (mem_snapshotNodes_ids hkeyed _ _).mpr (.inr ⟨hne, rfl⟩)
  · rcases mem_snapshotNodes hkeyed hn with ⟨_, _, haddr, hhealth, _⟩ | ⟨hown, _⟩
    · exact ⟨hhealth, haddr⟩
    · exact absurd (hown hid) hne

theorem not_wellFormed_handle (ha : ¬ a.Admissible) : ¬ WellFormed (d.handle a) := by
  cases a with
  | reverseRegistration nodeId timestampMs nowMs now =>
    intro h
    obtain ⟨hskew, hv⟩ := not_forall.mp ha
    apply hv
    apply h.valid
    simp only [handle, handleReverseRegistration, if_neg (UInt64.not_lt.mpr hskew)]
    exact mem_registerReverse.mpr (.inl rfl)
  | _ => exact absurd trivial ha

theorem run_concat (config : Config) (store : Store) (acts : List TableAct) (a : TableAct) :
    run config store (acts ++ [a]) = (run config store acts).handle a := by
  simp [run]

theorem sane_run (config : Config) (store : Store) {acts : List TableAct}
    (h : ∀ a ∈ acts, a.Admissible) :
    HashMap.All (Sane (run config store acts).config.nodeId)
      (run config store acts).knownNodes := by
  induction acts using List.reverseRecOn with
  | nil => exact HashMap.all_empty
  | append_singleton acts a ih =>
    have hs := ih fun b hb => h b (List.mem_append_left _ hb)
    rw [run_concat, handle_config]
    exact sane_handle hs (h a (by simp))

/-- A daemon is well formed in every state of a run exactly when every registration that the run
accepts names a valid id. -/
theorem wellFormed_iff_admissible (config : Config) (store : Store) (acts : List TableAct) :
    (∀ pre, pre <+: acts → WellFormed (run config store pre)) ↔ ∀ a ∈ acts, a.Admissible := by
  constructor
  · intro h a ha
    by_contra hna
    obtain ⟨pre, post, rfl⟩ := List.append_of_mem ha
    have hp : pre ++ [a] <+: pre ++ a :: post := ⟨post, by simp⟩
    have hw := h (pre ++ [a]) hp
    rw [run_concat] at hw
    exact not_wellFormed_handle hna hw
  · intro h pre hp
    apply wellFormed_of_sane
    exact sane_run config store fun a ha => h a (hp.subset ha)

/-- A node that was never given an id registers at a freshly started daemon. -/
theorem invalid_emptyRegistered :
    ¬ WellFormed (run { Config.default with nodeId := "p" } ⟨.default, none⟩
      [.reverseRegistration "" 1000 1000 1]) := by
  intro h
  exact absurd (h.valid "" (by decide)) (by decide)

end Daemon

end Stouter
