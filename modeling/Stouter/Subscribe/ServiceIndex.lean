import Stouter.Config.AdminValidity
import Stouter.Subscribe.Instances

/-! # Instances behind the service index

The index has one entry for each node and service name, whatever the group, and
a later instance overwrites an earlier one. The checks of a configuration keep
names apart within a group only, so the index has every instance exactly when
no two groups put different instances under one node and name.
-/

namespace Stouter

open Config (instanceKey)

variable {dc : DynamicConfig} {cfg : Config} {st : SharedState} {svc : Service}

theorem buildServiceIndex_eq (dc : DynamicConfig) :
    buildServiceIndex dc = dc.instances.foldl (fun idx s => idx.insert (instanceKey s) s) ∅ := by
  rw [DynamicConfig.instances, List.foldl_flatMap]
  rfl

/-- The last instance under a key wins. -/
theorem lookup_foldl_instance (l : List Service) (idx : HashMap (String × String) Service)
    (k : String × String) :
    (l.foldl (fun idx s => idx.insert (instanceKey s) s) idx).lookup k =
      (l.reverse.find? fun s => instanceKey s = k).or (idx.lookup k) := by
  induction l generalizing idx with
  | nil => rfl
  | cons s l ih =>
    rw [List.foldl_cons, ih, HashMap.lookup_insert_eq_ite, List.reverse_cons, List.find?_append,
      Option.or_assoc]
    congr 1
    by_cases hs : instanceKey s = k
    · rw [if_pos hs.symm, List.find?_cons_of_pos (by simpa using hs), Option.some_or]
    · rw [if_neg fun h => hs h.symm, List.find?_cons_of_neg (by simpa using hs), List.find?_nil,
        Option.none_or]

theorem mem_of_lookup_buildServiceIndex {k : String × String}
    (h : (buildServiceIndex dc).lookup k = some svc) :
    svc ∈ dc.instances ∧ instanceKey svc = k := by
  rw [buildServiceIndex_eq, lookup_foldl_instance, AList.lookup_empty, Option.or_none] at h
  exact ⟨List.mem_reverse.mp (List.mem_of_find?_eq_some h), by simpa using List.find?_some h⟩

theorem isSome_lookup_buildServiceIndex (h : svc ∈ dc.instances) :
    ((buildServiceIndex dc).lookup (instanceKey svc)).isSome = true := by
  rw [buildServiceIndex_eq, lookup_foldl_instance, AList.lookup_empty, Option.or_none,
    List.find?_isSome]
  exact ⟨svc, List.mem_reverse.mpr h, by simp⟩

/-! ## Who reads the index -/

/-- Connect to a local port; `connect` is `TcpStream::connect`. -/
def connectLocalPort {σ : Type} (connect : String → Except String σ) (port : UInt16) :
    Except String σ :=
  let localAddr := s!"127.0.0.1:{port}"
  match connect localAddr with
  | .ok stream => .ok stream
  | .error e => .error s!"failed to connect to local service at {localAddr}: {e}"

/-- Look up a service on this node and connect to its local port. -/
def connectLocalService {σ : Type} (connect : String → Except String σ) (serviceName : String)
    (st : SharedState) : Except String σ :=
  match st.serviceIndex.lookup (st.config.nodeId, serviceName) with
  | some service => connectLocalPort connect service.nodePort
  | none => .error s!"service '{serviceName}' not found on this node"

namespace SharedState

/-- Every instance must say so, so a half-migrated service falls back to byte forwarding. -/
def serviceIsHttp (serviceName : String) (st : SharedState) : Bool :=
  let instances := st.serviceIndex.entries.filter fun e => e.1.2 == serviceName
  !instances.isEmpty && instances.all fun e => e.2.protocol == .http

/-- The services the health checker probes: names, ports and paths. -/
def hosted (st : SharedState) : List (String × UInt16 × Option String) :=
  (st.serviceIndex.entries.filter fun e => e.1.1 == st.config.nodeId).map fun e =>
    (e.1.2, e.2.nodePort, e.2.healthPath)

def started (cfg : Config) (knownNodes : NodeMap) (localHealth : ServiceHealth) : SharedState :=
  ⟨cfg, knownNodes, buildServiceIndex cfg.dynamicConfig, localHealth⟩

end SharedState

def DynamicConfig.FullyIndexed (dc : DynamicConfig) : Prop :=
  ∀ s ∈ dc.instances, (buildServiceIndex dc).lookup (s.nodeId, s.name) = some s

/-- No two groups have different instances under one node and name. -/
def DynamicConfig.GroupsApart (dc : DynamicConfig) : Prop :=
  ∀ g ∈ dc.serviceGroups, ∀ g' ∈ dc.serviceGroups, g.name ≠ g'.name →
    ∀ s ∈ g.services, ∀ t ∈ g'.services, s.nodeId = t.nodeId → s.name = t.name → s = t

theorem fullyIndexed_iff (hu : Config.Unique dc) : dc.FullyIndexed ↔ dc.GroupsApart := by
  constructor
  · intro h g hg g' hg' _ s hs t ht hnode hname
    have hs' := h s (List.mem_flatMap.mpr ⟨g, hg, hs⟩)
    have ht' := h t (List.mem_flatMap.mpr ⟨g', hg', ht⟩)
    rw [hnode, hname, ht'] at hs'
    exact (Option.some.inj hs').symm
  · intro h s hs
    obtain ⟨t, ht⟩ := Option.isSome_iff_exists.mp (isSome_lookup_buildServiceIndex hs)
    obtain ⟨htmem, hkey⟩ := mem_of_lookup_buildServiceIndex ht
    obtain ⟨g, hg, hs⟩ := List.mem_flatMap.mp hs
    obtain ⟨g', hg', htg⟩ := List.mem_flatMap.mp htmem
    have hsame : t = s := by
      by_cases hn : g.name = g'.name
      · obtain rfl := List.inj_on_of_nodup_map hu.groups hg hg' hn
        exact List.inj_on_of_nodup_map (hu.services g hg) htg hs hkey
      · have hnode : t.nodeId = s.nodeId := congrArg Prod.fst hkey
        have hname : t.name = s.name := congrArg Prod.snd hkey
        exact h g' hg' g hg (fun h => hn h.symm) t htg s hs hnode hname
    rw [hsame] at ht
    exact ht

/-! ## What the readers see of an instance -/

namespace SharedState

/-- The index has the instance under its key; so the tunnel handler connects to its port, the
balancer gets it as a backend if its node is known, and the health checker probes it. -/
structure Sees (st : SharedState) (s : Service) : Prop where
  indexed : st.serviceIndex.lookup (s.nodeId, s.name) = some s
  connected : s.nodeId = st.config.nodeId → ∀ {σ : Type} (connect : String → Except String σ),
    connectLocalService connect s.name st = connectLocalPort connect s.nodePort
  balanced : ∀ c, st.backendOf s.nodeId s = some c → c ∈ st.serviceBackends s.name
  probed : s.nodeId = st.config.nodeId → (s.name, s.nodePort, s.healthPath) ∈ st.hosted

/-- Every instance is seen, and a service is HTTP when it has instances and all of them are. -/
structure SeesAll (st : SharedState) (instances : List Service) : Prop where
  sees : ∀ s ∈ instances, st.Sees s
  http : ∀ name, st.serviceIsHttp name = true ↔
    (∃ s ∈ instances, s.name = name) ∧ ∀ s ∈ instances, s.name = name → s.protocol = .http

theorem sees_of_indexed {s : Service} (h : st.serviceIndex.lookup (s.nodeId, s.name) = some s) :
    st.Sees s := by
  have hmem := AList.mem_lookup_iff.mp h
  constructor
  · exact h
  · intro hnode σ connect
    rw [connectLocalService, ← hnode, h]
  · intro c hc
    rw [serviceBackends, List.mem_insertionSort, List.mem_filterMap]
    exact ⟨⟨(s.nodeId, s.name), s⟩, List.mem_filter.mpr ⟨hmem, by simp⟩, hc⟩
  · intro hnode
    rw [hosted, List.mem_map]
    exact ⟨⟨(s.nodeId, s.name), s⟩, List.mem_filter.mpr ⟨hmem, by simp [hnode]⟩, rfl⟩

theorem serviceIsHttp_iff {name : String} :
    st.serviceIsHttp name = true ↔
      (∃ node s, st.serviceIndex.lookup (node, name) = some s) ∧
        ∀ node s, st.serviceIndex.lookup (node, name) = some s → s.protocol = .http := by
  simp only [serviceIsHttp, Bool.and_eq_true, Bool.not_eq_true',
    List.isEmpty_eq_false_iff_exists_mem, List.all_eq_true, List.mem_filter, beq_iff_eq]
  constructor
  · rintro ⟨⟨⟨⟨node, name'⟩, s⟩, hs, hname⟩, hall⟩
    obtain rfl : name' = name := hname
    refine ⟨⟨node, s, AList.mem_lookup_iff.mpr hs⟩, ?_⟩
    intro node' t ht
    exact hall ⟨(node', name'), t⟩ ⟨AList.mem_lookup_iff.mp ht, rfl⟩
  · rintro ⟨⟨node, s, hs⟩, hall⟩
    refine ⟨⟨⟨(node, name), s⟩, AList.mem_lookup_iff.mp hs, rfl⟩, ?_⟩
    rintro ⟨⟨node', name'⟩, t⟩ ⟨ht, hname⟩
    obtain rfl : name' = name := hname
    exact hall node' t (AList.mem_lookup_iff.mpr ht)

end SharedState

/-- With a configuration that passes the checks, a daemon sees every instance exactly when no two
groups have different instances under one node and name. -/
theorem sees_all_iff_groupsApart {http : HttpCrate} (hv : cfg.validate http = .ok ()) :
    (∀ knownNodes localHealth, (SharedState.started cfg knownNodes localHealth).SeesAll
      cfg.dynamicConfig.instances) ↔ cfg.dynamicConfig.GroupsApart := by
  rw [← fullyIndexed_iff ((Config.validate_ok_iff http cfg).mp hv).unique]
  constructor
  · intro h s hs
    exact ((h ∅ .default).sees s hs).indexed
  · intro h knownNodes localHealth
    constructor
    · exact fun s hs => SharedState.sees_of_indexed (h s hs)
    · intro name
      rw [SharedState.serviceIsHttp_iff]
      constructor
      · rintro ⟨⟨node, s, hs⟩, hall⟩
        obtain ⟨hmem, hkey⟩ := mem_of_lookup_buildServiceIndex hs
        refine ⟨⟨s, hmem, congrArg Prod.snd hkey⟩, ?_⟩
        rintro t ht rfl
        exact hall t.nodeId t (h t ht)
      · rintro ⟨⟨s, hs, rfl⟩, hall⟩
        refine ⟨⟨s.nodeId, s, h s hs⟩, ?_⟩
        intro node t ht
        obtain ⟨hmem, hkey⟩ := mem_of_lookup_buildServiceIndex ht
        exact hall t hmem (congrArg Prod.snd hkey)

theorem sees_all_routedConfig :
    routedConfig.validate plainHttp = .ok () ∧
      (SharedState.started routedConfig ∅ .default).Sees apiService := by
  have hv : routedConfig.validate plainHttp = .ok () := by decide
  have hapart : routedConfig.dynamicConfig.GroupsApart := by
    unfold DynamicConfig.GroupsApart
    decide
  have hall := (sees_all_iff_groupsApart hv).mpr hapart
  exact ⟨hv, (hall ∅ .default).sees apiService (by simp [routedConfig, DynamicConfig.instances])⟩

/-- Two groups with a service of the same name on the same node, on different ports. -/
def sharedName : Config :=
  { routedConfig with dynamicConfig :=
    { version := 5
      serviceGroups :=
        [⟨"web", [apiService]⟩, ⟨"shop", [{ apiService with nodePort := 4000 }]⟩]
      routes := [] } }

/-- The second group's instance is the only one in the index, so tunnels to the first one end at
the wrong port. -/
theorem overwritten_sharedName :
    sharedName.validate plainHttp = .ok () ∧ apiService ∈ sharedName.dynamicConfig.instances ∧
      (buildServiceIndex sharedName.dynamicConfig).lookup ("n1", "api") ≠ some apiService ∧
      (buildServiceIndex sharedName.dynamicConfig).lookup ("n1", "api") =
        some { apiService with nodePort := 4000 } ∧
      connectLocalService .ok "api" (SharedState.started sharedName ∅ .default) =
        .ok "127.0.0.1:4000" := by
  decide

end Stouter
