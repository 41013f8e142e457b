import Stouter.Gossip.IndexCoherence
import Stouter.Subscribe.Balancer

/-! # The instances of a service

From the service index and the membership table to the backend a connection
is sent to. Liveness and health filters run first and fail open, then the
balancer applies its own four filters; a backend that passes all six tests is
chosen whenever there is one.
-/

namespace Stouter

def nodeStaleAfter : Duration := .fromSecs 30

/-- The parts of the daemon's state that backend selection reads. -/
structure SharedState where
  config : Config
  knownNodes : NodeMap
  serviceIndex : HashMap (String × String) Service
  localHealth : ServiceHealth

namespace SharedState

/-- A daemon answers for its own services from its local checker. -/
def serviceUnhealthy (st : SharedState) (nodeId serviceName : String) : Bool :=
  if nodeId == st.config.nodeId then st.localHealth.isUnhealthy serviceName
  else (st.knownNodes.lookup nodeId).any (·.health.isUnhealthy serviceName)

def backendOf (st : SharedState) (nodeId : String) (svc : Service) : Option Backend :=
  (st.knownNodes.lookup nodeId).map fun node =>
    { node
      weight := svc.weight
      maxConnections := svc.maxConnections
      requestTimeout := svc.requestTimeoutMs.map (·.toNat * 1000000)
      labels := svc.labels }

/-- Every known node hosting the service, sorted by node id. -/
def serviceBackends (st : SharedState) (serviceName : String) : List Backend :=
  ((st.serviceIndex.entries.filter fun e => e.1.2 == serviceName).filterMap fun e =>
    st.backendOf e.1.1 e.2).insertionSort fun a b => a.node.id ≤ b.node.id

theorem backendOf_id {st : SharedState} (hk : Keyed st.knownNodes) {nodeId : String} {svc : Service}
    {c : Backend} (h : st.backendOf nodeId svc = some c) : c.node.id = nodeId := by
  obtain ⟨node, hn, rfl⟩ := Option.map_eq_some_iff.mp h
  exact hk nodeId node hn

theorem serviceBackends_nodup {st : SharedState} (hk : Keyed st.knownNodes) (serviceName : String) :
    ((st.serviceBackends serviceName).map (·.node.id)).Nodup := by
  have hperm := List.perm_insertionSort (fun a b : Backend => a.node.id ≤ b.node.id)
    ((st.serviceIndex.entries.filter fun e => e.1.2 == serviceName).filterMap fun e =>
      st.backendOf e.1.1 e.2)
  apply ((hperm.map (·.node.id)).nodup_iff).mpr
  have hkeys : (st.serviceIndex.entries.filter fun e => e.1.2 == serviceName).Pairwise
      fun d e => d.1 ≠ e.1 :=
    (List.pairwise_map.mp st.serviceIndex.nodupKeys).sublist List.filter_sublist
  have hname : ∀ e ∈ st.serviceIndex.entries.filter fun e => e.1.2 == serviceName,
      e.1.2 = serviceName := fun e he => by simpa using (List.mem_filter.mp he).2
  rw [List.Nodup, List.pairwise_map]
  refine List.Pairwise.filterMap _ ?_ (List.Pairwise.and_mem.mp hkeys)
  rintro d e ⟨hd, he, hne⟩ c hc c' hc' heq
  rw [backendOf_id hk hc, backendOf_id hk hc'] at heq
  exact hne (Prod.ext heq ((hname d hd).trans (hname e he).symm))

end SharedState

def prefer {α : Type*} (items : List α) (keep : α → Bool) : List α :=
  if items.any keep then items.filter keep else items

/-- Seen within the liveness window; a marker from the future counts as just seen. -/
def Backend.isLive (now : Instant) (c : Backend) : Bool :=
  c.node.lastSeen.any fun seen => now - seen ≤ nodeStaleAfter

/-- Drop nodes whose liveness marker is stale, then nodes whose health check reports the service
down. -/
def SharedState.preferHealthy (st : SharedState) (backends : List Backend) (serviceName : String)
    (now : Instant) : List Backend :=
  let live := prefer backends (·.isLive now)
  prefer live fun c => !st.serviceUnhealthy c.node.id serviceName

theorem prefer_eq_filterOrAll {α : Type*} (items : List α) (keep : α → Bool) :
    prefer items keep = items.filterOrAll keep := by
  unfold prefer List.filterOrAll
  by_cases h : items.any keep = true
  · have hne : items.filter keep ≠ [] := by
      obtain ⟨a, ha, hk⟩ := List.any_eq_true.mp h
      exact List.ne_nil_of_mem (List.mem_filter.mpr ⟨ha, hk⟩)
    simp [h, hne]
  · have hnil : items.filter keep = [] := by simpa using h
    simp [h, hnil]

namespace SharedState

variable {st : SharedState} {serviceName : String} {instances : List Backend} {seenAt : Instant}

theorem preferHealthy_sublist :
    (st.preferHealthy instances serviceName seenAt).Sublist instances := by
  simp only [preferHealthy, prefer_eq_filterOrAll]
  exact (List.filterOrAll_sublist _ _).trans (List.filterOrAll_sublist _ _)

theorem preferHealthy_eq_nil :
    st.preferHealthy instances serviceName seenAt = [] ↔ instances = [] := by
  simp only [preferHealthy, prefer_eq_filterOrAll, List.filterOrAll_eq_nil]

/-- With a live and healthy instance around, exactly those are kept. -/
theorem mem_preferHealthy {c d : Backend} (hc : c ∈ instances) (hlive : c.isLive seenAt = true)
    (hhealthy : st.serviceUnhealthy c.node.id serviceName = false) :
    d ∈ st.preferHealthy instances serviceName seenAt ↔
      d ∈ instances ∧ d.isLive seenAt = true ∧
        st.serviceUnhealthy d.node.id serviceName = false := by
  simp only [preferHealthy, prefer_eq_filterOrAll]
  have hcl : c ∈ instances.filterOrAll (·.isLive seenAt) :=
    (List.mem_filterOrAll hc hlive).mpr ⟨hc, hlive⟩
  rw [List.mem_filterOrAll hcl (by simp [hhealthy]), List.mem_filterOrAll hc hlive, and_assoc]
  simp

end SharedState

namespace Balancer

variable {b : Balancer} {candidates : List Backend} {tried : List String} {now : Instant}

theorem exists_chosen (now : Instant) {c : Backend} (hc : c ∈ candidates) (ht : c.node.id ∉ tried)
    (hroom : b.hasRoom c = true) :
    ∃ i slot, (b.pick candidates tried now).1 = .chosen i slot := by
  obtain ⟨j, rfl⟩ := List.mem_iff_get.mp hc
  have hj : j ∈ b.openSet candidates tried := mem_openSet.mpr ⟨ht, hroom⟩
  rcases b.pick_cases candidates tried now with ⟨hu, _⟩ | ⟨_, ho, _⟩ | ⟨i, _, _, h⟩
  · exact absurd (untried_eq_nil.mp hu _ hc) ht
  · simp [ho] at hj
  · exact ⟨i, _, by rw [h]⟩

/-- With a candidate that has room and is neither tried, drained nor ejected, exactly those are
eligible. -/
theorem mem_eligible {i j : Fin candidates.length} (ht : (candidates.get j).node.id ∉ tried)
    (hroom : b.hasRoom (candidates.get j) = true) (hw : (candidates.get j).weight > 0)
    (he : b.isEjected (candidates.get j).node.id now = false) :
    i ∈ b.eligible candidates tried now ↔
      ((candidates.get i).node.id ∉ tried ∧ b.hasRoom (candidates.get i) = true) ∧
        (candidates.get i).weight > 0 ∧ b.isEjected (candidates.get i).node.id now = false := by
  have hj : j ∈ b.openSet candidates tried := mem_openSet.mpr ⟨ht, hroom⟩
  have hju : j ∈ b.undrained candidates tried :=
    (List.mem_filterOrAll hj (by simpa using hw)).mpr ⟨hj, by simpa using hw⟩
  rw [eligible, failOpen, List.mem_filterOrAll hju (by simpa using he), undrained, failOpen,
    List.mem_filterOrAll hj (by simpa using hw), mem_openSet, and_assoc]
  simp

end Balancer

/-- The six qualities of an instance a connection should be sent to. -/
structure Usable (st : SharedState) (serviceName : String) (seenAt : Instant) (b : Balancer)
    (tried : List String) (now : Instant) (c : Backend) : Prop where
  live : c.isLive seenAt = true
  healthy : st.serviceUnhealthy c.node.id serviceName = false
  undrained : c.weight > 0
  room : b.hasRoom c = true
  admitted : b.isEjected c.node.id now = false
  untried : c.node.id ∉ tried

/-- The filters before the balancer drop nothing it needs: a usable instance is chosen if there is
one, and the balancer chooses from what is left whenever an untried one has room. -/
theorem usable_chosen (st : SharedState) (serviceName : String) (instances : List Backend)
    (seenAt now : Instant) (b : Balancer) (tried : List String) :
    let kept := st.preferHealthy instances serviceName seenAt
    ((∃ c ∈ instances, Usable st serviceName seenAt b tried now c) →
      ∃ i slot, (b.pick kept tried now).1 = .chosen i slot ∧
        Usable st serviceName seenAt b tried now (kept.get i)) ∧
    (instances ≠ [] → kept ≠ []) ∧ kept.Sublist instances ∧
    ((∃ c ∈ kept, c.node.id ∉ tried ∧ b.hasRoom c = true) →
      ∃ i slot, (b.pick kept tried now).1 = .chosen i slot) := by
  intro kept
  refine ⟨?_, fun hne hk => hne (SharedState.preferHealthy_eq_nil.mp hk),
    SharedState.preferHealthy_sublist, ?_⟩
  · rintro ⟨c, hc, hu⟩
    have hmem := fun d => SharedState.mem_preferHealthy (d := d) hc hu.live hu.healthy
    have hck : c ∈ kept := (hmem c).mpr ⟨hc, hu.live, hu.healthy⟩
    obtain ⟨i, slot, hpick⟩ := Balancer.exists_chosen now hck hu.untried hu.room
    obtain ⟨j, rfl⟩ := List.mem_iff_get.mp hck
    obtain ⟨he, _⟩ := Balancer.pick_chosen hpick
    rw [Balancer.mem_eligible hu.untried hu.room hu.undrained hu.admitted] at he
    obtain ⟨⟨htried, hroom⟩, hw, hadm⟩ := he
    obtain ⟨_, hlive, hhealthy⟩ := (hmem _).mp (kept.get_mem i)
    exact ⟨i, slot, hpick, hlive, hhealthy, hw, hroom, hadm, htried⟩
  · rintro ⟨c, hc, ht, hroom⟩
    exact Balancer.exists_chosen _ hc ht hroom

def seenBackend (id : String) (lastSeen : Option Instant) : Backend :=
  ⟨⟨id, "", none, lastSeen, .default⟩, 1, none, none, ∅⟩

/-- A subscriber that has heard of no health report. -/
def quietState : SharedState := ⟨.default, ∅, ∅, .default⟩

theorem usable_chosen_seen :
    let kept := quietState.preferHealthy [seenBackend "a" none, seenBackend "b" (some 0)] "api" 5
    ∃ i slot, (Balancer.new.pick kept [] 6).1 = .chosen i slot ∧
      Usable quietState "api" 5 .new [] 6 (kept.get i) :=
  (usable_chosen quietState "api" [seenBackend "a" none, seenBackend "b" (some 0)] 5 6 .new []).1
    ⟨seenBackend "b" (some 0), by simp, by decide, by decide, by decide, by decide, by decide,
      by simp⟩

end Stouter
