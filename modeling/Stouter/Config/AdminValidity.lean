import Stouter.Config.Entries

/-! # Which admin operations keep a configuration valid

Routes, domains and local ports couple a service instance with all others. An
operation on one instance leaves the others as they were, so validity after it
is a condition on that instance and on the configuration before.
-/

namespace Stouter

open Config DynamicConfig

/-! ## One instance among others -/

/-- A service instance agrees with the other instances, the routes and the reserved ports. -/
structure Fits (reserved : HashMap UInt16 String) (others : Set Service) (routes : List Route)
    (svc : Service) : Prop where
  domains : ∀ t ∈ others, ∀ d ∈ svc.domains, d ∈ t.domains → t.name = svc.name
  protocol : ∀ r ∈ routes, r.service = svc.name → svc.protocol = .http
  free : ∀ p, svc.localPort = some p → p ≠ 0 ∧ p ∉ reserved
  ports : ∀ p, svc.localPort = some p → ∀ t ∈ others, ∀ q, t.localPort = some q →
    (t.name = svc.name ↔ q = p)

def Targeted (instances : Set Service) (routes : List Route) : Prop :=
  ∀ r ∈ routes, ∃ s ∈ instances, s.name = r.service

variable {http : HttpCrate} {reserved : HashMap UInt16 String} {before others : Set Service}
  {routes : List Route} {svc : Service} {cfg : Config} {dc dc' : DynamicConfig} {v : UInt64}

/-- Of the conditions on a set of instances, only the route targets can fail on a subset. -/
theorem coupled_subset_iff (hc : Coupled http reserved before routes) (hsub : others ⊆ before) :
    Coupled http reserved others routes ↔ Targeted others routes := by
  constructor
  · intro h
    exact h.target
  · intro h
    exact {
      health := fun s hs => hc.health s (hsub hs)
      domains := fun s hs t ht => hc.domains s (hsub hs) t (hsub ht)
      target := h
      protocol := fun r hr s hs => hc.protocol r hr s (hsub hs)
      routes := hc.routes
      ports := fun s hs t ht => hc.ports s (hsub hs) t (hsub ht)
      free := fun s hs => hc.free s (hsub hs) }

theorem coupled_insert_iff (hc : Coupled http reserved before routes) (hsub : others ⊆ before)
    (hh : HealthOk svc) :
    Coupled http reserved (insert svc others) routes ↔
      Targeted (insert svc others) routes ∧ Fits reserved others routes svc := by
  have hself := Set.mem_insert svc others
  constructor
  · intro h
    refine ⟨h.target, ?_, ?_, h.free svc hself, ?_⟩
    · intro t ht d hd hd'
      exact h.domains t (Set.mem_insert_of_mem _ ht) svc hself d hd' hd
    · intro r hr hn
      exact h.protocol r hr svc hself hn.symm
    · intro p hp t ht q hq
      exact h.ports t (Set.mem_insert_of_mem _ ht) svc hself q p hq hp
  · rintro ⟨ht, hf⟩
    refine ⟨?_, ?_, ht, ?_, hc.routes, ?_, ?_⟩
    · rintro s (rfl | hs)
      · exact hh
      · exact hc.health s (hsub hs)
    · rintro s (rfl | hs) t (rfl | ht) d hd hd'
      · rfl
      · exact (hf.domains t ht d hd hd').symm
      · exact hf.domains s hs d hd' hd
      · exact hc.domains s (hsub hs) t (hsub ht) d hd hd'
    · rintro r hr s (rfl | hs) hn
      · exact hf.protocol r hr hn.symm
      · exact hc.protocol r hr s (hsub hs) hn
    · rintro s (rfl | hs) t (rfl | ht) p q hp hq
      · simp [Option.some.inj (hp.symm.trans hq)]
      · rw [eq_comm, hf.ports p hp t ht q hq, eq_comm]
      · exact hf.ports q hq s hs p hp
      · exact hc.ports s (hsub hs) t (hsub ht) p q hp hq
    · rintro s (rfl | hs)
      · exact hf.free
      · exact hc.free s (hsub hs)

theorem others_subset (group node name : String) :
    dc.others group node name ⊆ {s | s ∈ dc.instances} := by
  rintro s ⟨g, hg, -⟩
  exact mem_instances.mpr ⟨g, hg⟩

theorem mem_others_or (group node name : String) {s : Service} (hs : s ∈ dc.instances) :
    s ∈ dc.others group node name ∨ s.name = name := by
  obtain ⟨g, hg⟩ := mem_instances.mp hs
  by_cases hk : g = group ∧ isInstance node name s = true
  · exact .inr (congrArg Prod.snd (isInstance_iff.mp hk.2))
  · exact .inl ⟨g, hg, hk⟩

theorem targeted_union_iff {group node name : String} {new : Set Service}
    (ht : Targeted {s | s ∈ dc.instances} routes) :
    Targeted (dc.others group node name ∪ new) routes ↔
      ∀ r ∈ routes, r.service = name →
        ∃ s ∈ dc.others group node name ∪ new, s.name = name := by
  constructor
  · intro h r hr hn
    obtain ⟨s, hs, hsn⟩ := h r hr
    exact ⟨s, hs, hsn.trans hn⟩
  · intro h r hr
    by_cases hn : r.service = name
    · rw [hn]
      exact h r hr hn
    · obtain ⟨s, hs, hsn⟩ := ht r hr
      rcases mem_others_or group node name hs with hs | hs
      · exact ⟨s, .inl hs, hsn⟩
      · exact absurd (hsn.symm.trans hs) hn

/-! ## The routes of one service -/

theorem coupled_setRoutes {service : String}
    (hc : Coupled http reserved {s | s ∈ dc.instances} dc.routes)
    (h : dc.setRoutes http service routes = (.ok v, dc')) :
    Coupled http reserved {s | s ∈ dc'.instances} dc'.routes := by
  obtain ⟨htarget, hroutes, hgroups, i, hspliced⟩ := setRoutes_splice h
  have hservice := service_of_validateRoutes hroutes
  have hmem : ∀ r ∈ dc'.routes, r ∈ routes ∨ r ∈ dc.routes ∧ r.service ≠ service := by
    intro r hr
    rw [hspliced] at hr
    simp only [List.mem_append] at hr
    rcases hr with (hr | hr) | hr
    · exact .inr (by simpa using List.mem_of_mem_take hr)
    · exact .inl hr
    · exact .inr (by simpa using List.mem_of_mem_drop hr)
  have hsame : dc'.instances = dc.instances := by rw [instances, instances, hgroups]
  rw [hsame]
  refine ⟨hc.health, hc.domains, ?_, ?_, ?_, hc.ports, hc.free⟩
  · intro r hr
    rcases hmem r hr with hr | ⟨hr, -⟩
    · rw [hservice r hr]
      exact (validateRouteTarget_ok.mp (htarget r hr)).1
    · exact hc.target r hr
  · intro r hr s hs hn
    rcases hmem r hr with hr | ⟨hr, -⟩
    · exact (validateRouteTarget_ok.mp (htarget r hr)).2 s hs (hn.trans (hservice r hr))
    · exact hc.protocol r hr s hs hn
  · intro r hr
    rw [hspliced, filter_splice i hservice]
    rcases hmem r hr with hr | ⟨hr, hne⟩
    · rw [if_pos (hservice r hr), hservice r hr]
      exact hroutes
    · rw [if_neg hne]
      exact hc.routes r hr

/-! ## The admin operations -/

/-- Every route to `name` still has a target without the instance under the key. -/
def Spares (dc : DynamicConfig) (group node name : String) : Prop :=
  ∀ r ∈ dc.routes, r.service = name → ∃ s ∈ dc.others group node name, s.name = name

namespace AdminOp

/-- The operation brings in nothing that clashes and takes away no route's last target. -/
def FitsIn (reserved : HashMap UInt16 String) (dc : DynamicConfig) : AdminOp → Prop
  | .serviceAdd group name ownerNodeId port domains weight maxConnections protocol
      requestTimeoutMs healthPath labels metadata localPort =>
    Fits reserved (dc.others group ownerNodeId name) dc.routes
      { name, nodeId := ownerNodeId, nodePort := port, domains, weight, maxConnections, protocol,
        requestTimeoutMs, healthPath, labels, metadata, localPort }
  | .routesSet _ _ => True
  | .serviceRename group ownerNodeId source target =>
    Spares dc group ownerNodeId source ∧
      ∀ old, (group, old) ∈ dc.entries → isInstance ownerNodeId source old = true →
        Fits reserved (dc.others group ownerNodeId source) dc.routes { old with name := target }
  | .serviceRemove group ownerNodeId name => Spares dc group ownerNodeId name

/-- The condition against the ports the daemon keeps for itself. -/
def Keeps (cfg : Config) (op : AdminOp) : Prop :=
  ∃ reserved, cfg.reservedPorts = .ok reserved ∧ op.FitsIn reserved cfg.dynamicConfig

end AdminOp

/-- With the instances under unique keys known, validity is a condition on them. -/
theorem valid_leaves_iff {instances : Set Service} (hv : Valid http cfg)
    (hr : cfg.reservedPorts = .ok reserved) (hl : Leaves cfg.dynamicConfig dc' instances) :
    Valid http { cfg with dynamicConfig := dc' } ↔
      Coupled http reserved instances cfg.dynamicConfig.routes := by
  rw [← hl.instances, ← hl.routes]
  constructor
  · rintro ⟨_, ⟨reserved', hr', hc⟩, _, _⟩
    obtain rfl : reserved = reserved' := Except.ok.inj (hr.symm.trans hr')
    exact hc
  · intro hc
    exact ⟨hl.unique, ⟨reserved, hr, hc⟩, hv.tracing, hv.filter⟩

theorem valid_serviceAdd_iff {group : String} (hv : Valid http cfg)
    (hc : Coupled http reserved {s | s ∈ cfg.dynamicConfig.instances} cfg.dynamicConfig.routes)
    (hr : cfg.reservedPorts = .ok reserved) (hh : HealthOk svc)
    (h : cfg.dynamicConfig.upsertService group svc = (.ok v, dc')) :
    Valid http { cfg with dynamicConfig := dc' } ↔
      Fits reserved (cfg.dynamicConfig.others group svc.nodeId svc.name) cfg.dynamicConfig.routes
        svc := by
  rw [valid_leaves_iff hv hr (upsertService_leaves hv.unique h),
    coupled_insert_iff hc (others_subset _ _ _) hh, ← Set.union_singleton,
    targeted_union_iff hc.target]
  refine and_iff_right fun r _ _ => ⟨svc, .inr rfl, rfl⟩

theorem valid_serviceRemove_iff {group node name : String} (hv : Valid http cfg)
    (hc : Coupled http reserved {s | s ∈ cfg.dynamicConfig.instances} cfg.dynamicConfig.routes)
    (hr : cfg.reservedPorts = .ok reserved)
    (h : cfg.dynamicConfig.removeService group node name = (.ok v, dc')) :
    Valid http { cfg with dynamicConfig := dc' } ↔ Spares cfg.dynamicConfig group node name := by
  rw [valid_leaves_iff hv hr (removeService_leaves hv.unique h),
    coupled_subset_iff hc (others_subset _ _ _), ← Set.union_empty (others _ _ _ _),
    targeted_union_iff hc.target, Set.union_empty]
  rfl

theorem valid_serviceRename_iff {group node source target : String} (hv : Valid http cfg)
    (hc : Coupled http reserved {s | s ∈ cfg.dynamicConfig.instances} cfg.dynamicConfig.routes)
    (hr : cfg.reservedPorts = .ok reserved)
    (h : cfg.dynamicConfig.renameService group node source target = (.ok v, dc')) :
    Valid http { cfg with dynamicConfig := dc' } ↔
      (AdminOp.serviceRename group node source target).FitsIn reserved cfg.dynamicConfig := by
  obtain ⟨old, hold, hi, hmoved, hl⟩ := renameService_leaves hv.unique h
  have hh : HealthOk { old with name := target } :=
    hc.health old (mem_instances.mpr ⟨group, hold⟩)
  rw [valid_leaves_iff hv hr hl, coupled_insert_iff hc (others_subset _ _ _) hh,
    ← Set.union_singleton, targeted_union_iff hc.target]
  refine and_congr (forall₃_congr fun r _ _ => ?_) ?_
  · constructor
    · rintro ⟨s, hs | rfl, hn⟩
      · exact ⟨s, hs, hn⟩
      · exact absurd hn.symm hmoved
    · rintro ⟨s, hs, hn⟩
      exact ⟨s, .inl hs, hn⟩
  · constructor
    · intro hf x hx hxi
      have hk := (isInstance_iff.mp hxi).trans (isInstance_iff.mp hi).symm
      rwa [entries_inj hv.unique hx hold hk]
    · intro hf
      exact hf old hold hi

/-- A successful operation keeps a configuration valid exactly when it fits in. -/
theorem validate_mutate_iff {op : AdminOp} (hv : cfg.validate http = .ok ())
    (h : op.mutate http cfg.dynamicConfig = (.ok v, dc')) :
    ({ cfg with dynamicConfig := dc' } : Config).validate http = .ok () ↔ op.Keeps cfg := by
  rw [validate_ok_iff] at hv ⊢
  obtain ⟨reserved, hr, hc⟩ := hv.coupled
  have hkeeps : op.Keeps cfg ↔ op.FitsIn reserved cfg.dynamicConfig := by
    constructor
    · rintro ⟨reserved', hr', hf⟩
      rwa [Except.ok.inj (hr.symm.trans hr')]
    · intro hf
      exact ⟨reserved, hr, hf⟩
  rw [hkeeps]
  cases op with
  | serviceAdd group name node port domains weight maxConnections protocol timeout healthPath labels
      metadata localPort =>
    simp only [AdminOp.mutate] at h
    split at h
    · cases h
    · rename_i hno
      refine valid_serviceAdd_iff hv hc hr ?_ h
      intro path hp
      cases hpath : validateHealthPath path with
      | ok u => rfl
      | error e =>
        refine absurd ?_ (hno e)
        have hp : healthPath = some path := hp
        rw [hp, Option.map_some, hpath]
  | routesSet service routes =>
    refine iff_of_true ⟨?_, ⟨reserved, hr, coupled_setRoutes hc h⟩, hv.tracing, hv.filter⟩ trivial
    obtain ⟨-, -, hgroups, -⟩ := setRoutes_splice h
    constructor
    · exact hgroups ▸ hv.unique.groups
    · exact hgroups ▸ hv.unique.services
  | serviceRename group node source target => exact valid_serviceRename_iff hv hc hr h
  | serviceRemove group node name => exact valid_serviceRemove_iff hv hc hr h

/-! ## A routed service -/

def apiService : Service where
  name := "api"
  nodeId := "n1"
  nodePort := 3000
  domains := ["api.internal"]
  weight := 1
  maxConnections := none
  protocol := .http
  requestTimeoutMs := none
  healthPath := some "/healthz"
  labels := ∅
  metadata := ∅
  localPort := some 15002

def routedConfig : Config :=
  { Config.default with
    mode := .nodeSubscribe
    nodeId := "n1"
    dynamicConfig :=
      { version := 5
        serviceGroups := [⟨"web", [apiService]⟩]
        routes := [⟨none, "api", ⟨none, none, ∅⟩, [⟨∅, 1⟩]⟩] } }

def Config.after (cfg : Config) (op : AdminOp) : Config :=
  { cfg with dynamicConfig := (op.mutate plainHttp cfg.dynamicConfig).2 }

def apiTwin : AdminOp :=
  .serviceAdd "web" "api" "n2" 3000 ["api.internal"] 1 none .http none none ∅ ∅ (some 15002)

theorem validate_apiTwin :
    (routedConfig.after apiTwin).validate plainHttp = .ok () ∧ apiTwin.Keeps routedConfig := by
  have hv : (routedConfig.after apiTwin).validate plainHttp = .ok () := by decide
  exact ⟨hv, (validate_mutate_iff (v := 6) (by decide) rfl).mp hv⟩

/-- The last instance of a routed service is removed, and its route stays. -/
theorem invalid_apiRemoved :
    routedConfig.validate plainHttp = .ok () ∧
      ((AdminOp.serviceRemove "web" "n1" "api").mutate plainHttp routedConfig.dynamicConfig).1 =
        .ok 6 ∧
      (routedConfig.after (.serviceRemove "web" "n1" "api")).validate plainHttp =
        .error "routes reference unknown service 'api'" := by
  decide

end Stouter
