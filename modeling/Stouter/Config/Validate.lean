import Stouter.Config.Mutations
import Stouter.Config.SocketAddr
import Stouter.Maps.Basic
import Stouter.Text.Basic

/-! # Validation of a configuration

`Config.validate` in the order of the source, loop by loop, and what it accepts:
`validate_ok_iff` says that it returns `Ok` exactly on the configurations that
satisfy `Valid`, whose conditions on the dynamic part speak about the set of
service instances.
-/

namespace Stouter

/-- Run a check over a list, up to its first error. -/
def checkAll {α : Type*} (check : α → Except String Unit) : List α → Except String Unit
  | [] => .ok ()
  | a :: l =>
    match check a with
    | .error e => .error e
    | .ok () => checkAll check l

theorem checkAll_ok {α : Type*} {check : α → Except String Unit} {l : List α} :
    checkAll check l = .ok () ↔ ∀ a ∈ l, check a = .ok () := by
  induction l with
  | nil => simp [checkAll]
  | cons a l ih =>
    rw [checkAll, List.forall_mem_cons]
    cases ha : check a with
    | error e => simp
    | ok u => simpa using ih

theorem bind_ok {α β : Type} {x : Except String α} {f : α → Except String β} {b : β} :
    (x >>= f) = .ok b ↔ ∃ a, x = .ok a ∧ f a = .ok b := by
  cases x with
  | error e => exact ⟨nofun, nofun⟩
  | ok a => exact ⟨fun h => ⟨a, rfl, h⟩, fun ⟨_, ha, h⟩ => Except.ok.inj ha ▸ h⟩

namespace Config

/-! ## The checks -/

def claimDomains (group : String) (svc : Service) :
    List String → HashMap String String → Except String (HashMap String String)
  | [], owner => .ok owner
  | domain :: domains, owner =>
    match owner.lookup domain with
    | some other =>
      if other ≠ svc.name then
        .error s!"domain '{domain}' is claimed by both '{other}' and '{group}/{svc.name}'"
      else claimDomains group svc domains (owner.insert domain svc.name)
    | none => claimDomains group svc domains (owner.insert domain svc.name)

/-- The services of one group, with the instances seen in it so far. -/
def validateServices (group : String) :
    List Service → List (String × String) → HashMap String String →
      Except String (HashMap String String)
  | [], _, owner => .ok owner
  | svc :: services, seen, owner =>
    if (svc.nodeId, svc.name) ∈ seen then
      .error s!"duplicate service '{svc.name}' on node '{svc.nodeId}' in group '{group}'"
    else
      match svc.healthPath.map validateHealthPath with
      | some (.error e) => .error s!"service '{group}/{svc.name}' on node '{svc.nodeId}': {e}"
      | _ =>
        match claimDomains group svc svc.domains owner with
        | .error e => .error e
        | .ok owner => validateServices group services ((svc.nodeId, svc.name) :: seen) owner

def validateGroups :
    List ServiceGroup → List String → HashMap String String → Except String Unit
  | [], _, _ => .ok ()
  | group :: groups, seen, owner =>
    if group.name ∈ seen then .error s!"duplicate service group name: '{group.name}'"
    else
      match validateServices group.name group.services [] owner with
      | .error e => .error e
      | .ok owner => validateGroups groups (group.name :: seen) owner

def validateRouted (http : HttpCrate) (dc : DynamicConfig) (service : String) :
    Except String Unit :=
  match dc.validateRouteTarget service with
  | .error e => .error e
  | .ok () => validateRoutes http service (dc.routes.filter (·.service == service))

def claimPorts (dc : DynamicConfig) : List String → HashMap UInt16 String → Except String Unit
  | [], _ => .ok ()
  | name :: names, owner =>
    match dc.localPortFor name with
    | .error e => .error e
    | .ok none => claimPorts dc names owner
    | .ok (some port) =>
      if port = 0 then .error s!"localPort of '{name}' must not be 0"
      else
        match owner.lookup port with
        | some other => .error s!"localPort {port} of '{name}' is already used by {other}"
        | none => claimPorts dc names (owner.insert port name)

def subscribes (cfg : Config) : Bool := cfg.mode = .subscribe || cfg.mode = .nodeSubscribe

/-- The ports of the daemon's own loopback listeners. -/
def reservedPorts (cfg : Config) : Except String (HashMap UInt16 String) :=
  let owner : HashMap UInt16 String :=
    if cfg.subscribes then (∅ : HashMap UInt16 String).insert cfg.apiPortOr "the REST API (apiPort)"
    else ∅
  match cfg.httpListen with
  | none => .ok owner
  | some listen =>
    match SocketAddr.parse listen with
    | none => .error (s!"httpListen '{listen}' is not an address like 127.0.0.1:15001: " ++
        "invalid socket address syntax")
    | some addr =>
      let owner := if addr.ip.isLoopback || addr.ip.isUnspecified then
        owner.insert addr.port "httpListen" else owner
      if !cfg.subscribes then
        .error "`httpListen` is only valid in subscribe or nodeSubscribe mode"
      else .ok owner

end Config

def TracingConfig.validate (http : HttpCrate) (t : TracingConfig) : Except String Unit :=
  match http.parseUri t.otlpEndpoint with
  | .error e => .error s!"tracing.otlpEndpoint '{t.otlpEndpoint}' is not a URL: {e}"
  | .ok uri =>
    if uri.scheme = some "https" then
      .error (s!"tracing.otlpEndpoint '{t.otlpEndpoint}': https is not supported; send to a " ++
        "local OpenTelemetry Collector over http and let it forward over TLS")
    else if uri.scheme ≠ some "http" then
      .error s!"tracing.otlpEndpoint '{t.otlpEndpoint}' must start with http://"
    else if uri.host.isNone then
      .error s!"tracing.otlpEndpoint '{t.otlpEndpoint}' has no host"
    else if !(0.0 ≤ t.sampleRatio && t.sampleRatio ≤ 1.0) then
      .error (s!"tracing.sampleRatio {Text.displayF64 t.sampleRatio} must be between 0.0 " ++
        "and 1.0")
    else .ok ()

namespace Config

def serviceNames (dc : DynamicConfig) : List String := (dc.instances.map (·.name)).sortDedup

/-- Validate structural invariants of the configuration. -/
def validate (http : HttpCrate) (cfg : Config) : Except String Unit := do
  let dc := cfg.dynamicConfig
  validateGroups dc.serviceGroups [] ∅
  checkAll (validateRouted http dc) (dc.routes.map (·.service)).sortDedup
  let owner ← cfg.reservedPorts
  claimPorts dc (serviceNames dc) owner
  checkAll (TracingConfig.validate http) cfg.tracing.toList
  if cfg.subscribeFilter.isSome && !cfg.subscribes then
    .error "`subscribeFilter` is only valid in subscribe or nodeSubscribe mode"

/-! ## What the checks accept -/

/-- No domain is claimed under two names. -/
def Consistent (claims : List (String × String)) : Prop :=
  ∀ d n m, (d, n) ∈ claims → (d, m) ∈ claims → n = m

/-- The owner map holds exactly the claims made so far. -/
def Owns (owner : HashMap String String) (claims : List (String × String)) : Prop :=
  ∀ d n, owner.lookup d = some n ↔ (d, n) ∈ claims

variable {owner : HashMap String String} {made : List (String × String)} {group : String}

theorem Owns.consistent (h : Owns owner made) : Consistent made := by
  intro d n m hn hm
  exact Option.some.inj (((h d n).mpr hn).symm.trans ((h d m).mpr hm))

theorem Owns.insert {domain name : String} (h : Owns owner made)
    (hd : ∀ other, owner.lookup domain = some other → other = name) :
    Owns (owner.insert domain name) (made ++ [(domain, name)]) := by
  intro d n
  rw [HashMap.lookup_insert_eq_ite, List.mem_append, List.mem_singleton, Prod.mk.injEq]
  split_ifs with he
  · subst he
    constructor
    · intro hn
      exact .inr ⟨rfl, (Option.some.inj hn).symm⟩
    · rintro (hn | ⟨_, rfl⟩)
      · rw [hd n ((h d n).mpr hn)]
      · rfl
  · rw [h d n]
    exact ⟨.inl, fun hn => hn.resolve_right fun hx => he hx.1⟩

/-- The result is `Ok` with a value as it should be, or an error because the condition fails. -/
def Settles {α : Type*} (r : Except String α) (good : α → Prop) (cond : Prop) : Prop :=
  match r with
  | .ok a => good a
  | .error _ => ¬ cond

theorem settles_claimDomains (group : String) (svc : Service) (domains : List String)
    (h : Owns owner made) :
    Settles (claimDomains group svc domains owner)
      (fun owner' => Owns owner' (made ++ domains.map fun d => (d, svc.name)))
      (Consistent (made ++ domains.map fun d => (d, svc.name))) := by
  induction domains generalizing owner made with
  | nil => simpa [claimDomains, Settles] using h
  | cons d ds ih =>
    have hshift : made ++ (d :: ds).map (fun d => (d, svc.name)) =
        (made ++ [(d, svc.name)]) ++ ds.map fun d => (d, svc.name) := by simp
    rw [hshift]
    cases hl : owner.lookup d with
    | none =>
      simp only [claimDomains, hl]
      exact ih (h.insert (by simp [hl]))
    | some other =>
      by_cases ho : other = svc.name
      · simp only [claimDomains, hl, ho, ne_eq, not_true_eq_false, if_false]
        exact ih (h.insert (by simp [hl, ho]))
      · simp only [claimDomains, hl, ne_eq, ho, not_false_eq_true, if_true]
        intro hc
        exact ho (hc d other svc.name (by simp [(h d other).mp hl]) (by simp))

def claimsOf (services : List Service) : List (String × String) :=
  services.flatMap fun s => s.domains.map fun d => (d, s.name)

def instanceKey (s : Service) : String × String := (s.nodeId, s.name)

def HealthOk (s : Service) : Prop :=
  ∀ path, s.healthPath = some path → validateHealthPath path = .ok ()

/-- What the loop over one group's services asks for, given the instances seen before. -/
structure ServicesOk (seen : List (String × String)) (services : List Service) : Prop where
  distinct : List.DistinctFrom instanceKey seen services
  health : ∀ s ∈ services, HealthOk s

theorem servicesOk_cons {svc : Service} {services : List Service} {seen : List (String × String)} :
    ServicesOk seen (svc :: services) ↔ instanceKey svc ∉ seen ∧ HealthOk svc ∧
      ServicesOk (instanceKey svc :: seen) services := by
  constructor
  · rintro ⟨hd, hh⟩
    obtain ⟨hk, hd⟩ := List.distinctFrom_cons.mp hd
    obtain ⟨hs, hh⟩ := List.forall_mem_cons.mp hh
    exact ⟨hk, hs, hd, hh⟩
  · rintro ⟨hk, hs, hd, hh⟩
    exact ⟨List.distinctFrom_cons.mpr ⟨hk, hd⟩, List.forall_mem_cons.mpr ⟨hs, hh⟩⟩

theorem settles_validateServices (group : String) (services : List Service)
    (seen : List (String × String)) (h : Owns owner made) :
    Settles (validateServices group services seen owner)
      (fun owner' => Owns owner' (made ++ claimsOf services) ∧ ServicesOk seen services)
      (ServicesOk seen services ∧ Consistent (made ++ claimsOf services)) := by
  induction services generalizing owner made seen with
  | nil => exact ⟨by simpa [claimsOf] using h, by simp [List.DistinctFrom], by simp⟩
  | cons svc services ih =>
    have hclaims : made ++ claimsOf (svc :: services) =
        (made ++ svc.domains.map fun d => (d, svc.name)) ++ claimsOf services := by
      simp [claimsOf]
    rw [hclaims]
    unfold validateServices
    by_cases hseen : (svc.nodeId, svc.name) ∈ seen
    · rw [if_pos hseen]
      intro hall
      exact (servicesOk_cons.mp hall.1).1 hseen
    · rw [if_neg hseen]
      split
      · rename_i e he
        obtain ⟨path, hp, hv⟩ := Option.map_eq_some_iff.mp he
        intro hall
        rw [hall.1.health svc List.mem_cons_self path hp] at hv
        cases hv
      · rename_i hno
        have hhealth : HealthOk svc := by
          intro path hp
          cases hv : validateHealthPath path with
          | ok u => rfl
          | error e => exact absurd (by rw [hp, Option.map_some, hv]) (hno e)
        have hdom := settles_claimDomains group svc svc.domains h
        cases hc : claimDomains group svc svc.domains owner with
        | error e =>
          rw [hc] at hdom
          intro hall
          refine hdom fun d n m hn hm => hall.2 d n m ?_ ?_
          · exact List.mem_append_left _ hn
          · exact List.mem_append_left _ hm
        | ok owner' =>
          rw [hc] at hdom
          have hrest := ih ((svc.nodeId, svc.name) :: seen) hdom
          dsimp only
          cases hr : validateServices group services ((svc.nodeId, svc.name) :: seen) owner' with
          | error e =>
            rw [hr] at hrest
            intro hall
            exact hrest ⟨(servicesOk_cons.mp hall.1).2.2, hall.2⟩
          | ok owner'' =>
            rw [hr] at hrest
            exact ⟨hrest.1, servicesOk_cons.mpr ⟨hseen, hhealth, hrest.2⟩⟩

/-- What the loop over the groups asks for, given the names seen before. -/
structure GroupsOk (seen : List String) (groups : List ServiceGroup) : Prop where
  distinct : List.DistinctFrom ServiceGroup.name seen groups
  services : ∀ g ∈ groups, ServicesOk [] g.services

theorem groupsOk_cons {g : ServiceGroup} {groups : List ServiceGroup} {seen : List String} :
    GroupsOk seen (g :: groups) ↔ g.name ∉ seen ∧ ServicesOk [] g.services ∧
      GroupsOk (g.name :: seen) groups := by
  constructor
  · rintro ⟨hd, hs⟩
    obtain ⟨hk, hd⟩ := List.distinctFrom_cons.mp hd
    obtain ⟨hg, hs⟩ := List.forall_mem_cons.mp hs
    exact ⟨hk, hg, hd, hs⟩
  · rintro ⟨hk, hg, hd, hs⟩
    exact ⟨List.distinctFrom_cons.mpr ⟨hk, hd⟩, List.forall_mem_cons.mpr ⟨hg, hs⟩⟩

theorem validateGroups_ok (groups : List ServiceGroup) (seen : List String) (h : Owns owner made) :
    validateGroups groups seen owner = .ok () ↔
      GroupsOk seen groups ∧ Consistent (made ++ claimsOf (groups.flatMap (·.services))) := by
  induction groups generalizing owner made seen with
  | nil =>
    refine ⟨fun _ => ⟨⟨by simp [List.DistinctFrom], by simp⟩, ?_⟩, fun _ => rfl⟩
    simpa [claimsOf] using h.consistent
  | cons g groups ih =>
    have hclaims : made ++ claimsOf ((g :: groups).flatMap (·.services)) =
        (made ++ claimsOf g.services) ++ claimsOf (groups.flatMap (·.services)) := by
      simp [claimsOf]
    rw [hclaims, groupsOk_cons]
    unfold validateGroups
    by_cases hseen : g.name ∈ seen
    · simp [hseen]
    · rw [if_neg hseen]
      have hsvc := settles_validateServices g.name g.services [] h
      cases hv : validateServices g.name g.services [] owner with
      | error e =>
        rw [hv] at hsvc
        constructor
        · intro he
          cases he
        · rintro ⟨⟨-, hs, -⟩, hc⟩
          refine absurd ⟨hs, fun d n m hn hm => ?_⟩ hsvc
          exact hc d n m (List.mem_append_left _ hn) (List.mem_append_left _ hm)
      | ok owner' =>
        rw [hv] at hsvc
        rw [ih (g.name :: seen) hsvc.1]
        simp [hseen, hsvc.2]

/-! ## Local ports -/

section Ports

variable {dc : DynamicConfig} {name : String} {p q : UInt16} {r : Option UInt16}

def AsksFor (dc : DynamicConfig) (name : String) (p : UInt16) : Prop :=
  ∃ s ∈ dc.instances, s.name = name ∧ s.localPort = some p

theorem mem_ports : p ∈ ((dc.instances.filter (·.name == name)).filterMap (·.localPort)).sortDedup ↔
    AsksFor dc name p := by
  simp only [List.mem_sortDedup, List.mem_filterMap, List.mem_filter, beq_iff_eq, AsksFor,
    and_assoc]

theorem localPortFor_agree (h : dc.localPortFor name = .ok r) (hp : AsksFor dc name p) :
    r = some p := by
  rw [← mem_ports] at hp
  unfold DynamicConfig.localPortFor at h
  split at h
  · rename_i hl
    simp [hl] at hp
  · rename_i port hl
    obtain rfl : p = port := by simpa [hl] using hp
    exact (Except.ok.inj h).symm
  · cases h

theorem asksFor_of_localPortFor (h : dc.localPortFor name = .ok (some p)) : AsksFor dc name p := by
  rw [← mem_ports]
  unfold DynamicConfig.localPortFor at h
  split at h
  · cases h
  · rename_i port hl
    rw [hl, ← Option.some.inj (Except.ok.inj h)]
    exact List.mem_singleton_self _
  · cases h

/-- The instances of a service disagree exactly when `local_port_for` fails. -/
theorem localPortFor_isOk :
    (∃ r, dc.localPortFor name = .ok r) ↔
      ∀ p q, AsksFor dc name p → AsksFor dc name q → p = q := by
  constructor
  · rintro ⟨r, hr⟩ p q hp hq
    exact Option.some.inj ((localPortFor_agree hr hp).symm.trans (localPortFor_agree hr hq))
  · intro h
    have hn := List.nodup_sortDedup
      ((dc.instances.filter (·.name == name)).filterMap (·.localPort))
    unfold DynamicConfig.localPortFor
    split
    · exact ⟨none, rfl⟩
    · rename_i port _
      exact ⟨some port, rfl⟩
    · rename_i hnil hone
      -- Two distinct ports in the list would both be asked for.
      rcases hl : ((dc.instances.filter (·.name == name)).filterMap (·.localPort)).sortDedup with
        _ | ⟨p, _ | ⟨q, l⟩⟩
      · exact absurd hl hnil
      · exact absurd hl (hone p)
      · rw [hl] at hn
        have hp : AsksFor dc name p := mem_ports.mp (by simp [hl])
        have hq : AsksFor dc name q := mem_ports.mp (by simp [hl])
        simp [h p q hp hq] at hn

theorem claimPorts_ok {names : List String} {owner : HashMap UInt16 String} :
    claimPorts dc names owner = .ok () ↔
      (∀ name ∈ names, (∃ r, dc.localPortFor name = .ok r) ∧
        ∀ p, dc.localPortFor name = .ok (some p) → p ≠ 0 ∧ p ∉ owner) ∧
      names.Pairwise fun a b => ∀ p, dc.localPortFor a = .ok (some p) →
        dc.localPortFor b ≠ .ok (some p) := by
  induction names generalizing owner with
  | nil => simp [claimPorts]
  | cons name names ih =>
    rw [List.forall_mem_cons, List.pairwise_cons]
    unfold claimPorts
    cases hr : dc.localPortFor name with
    | error e => simp
    | ok r =>
      cases r with
      | none => simp [ih]
      | some port =>
        dsimp only
        by_cases h0 : port = 0
        · simp [h0]
        · rw [if_neg h0]
          cases ho : owner.lookup port with
          | some other =>
            have hmem : port ∈ owner := HashMap.mem_of_lookup ho
            refine ⟨nofun, fun h => ?_⟩
            exact absurd hmem (h.1.1.2 port rfl).2
          | none =>
            have hnew : port ∉ owner := AList.lookup_eq_none.mp ho
            rw [ih]
            simp only [AList.mem_insert, not_or]
            constructor
            · rintro ⟨hall, hpair⟩
              refine ⟨⟨⟨⟨_, rfl⟩, ?_⟩, fun n hn => ⟨(hall n hn).1, ?_⟩⟩, ?_, hpair⟩
              · rintro p ⟨⟩
                exact ⟨h0, hnew⟩
              · intro p hp
                obtain ⟨hp0, _, hpo⟩ := (hall n hn).2 p hp
                exact ⟨hp0, hpo⟩
              · rintro n hn _ ⟨⟩ hp
                exact ((hall n hn).2 port hp).2.1 rfl
            · rintro ⟨⟨_, hall⟩, hne, hpair⟩
              refine ⟨fun n hn => ⟨(hall n hn).1, fun p hp => ?_⟩, hpair⟩
              obtain ⟨hp0, hpo⟩ := (hall n hn).2 p hp
              exact ⟨hp0, fun he => hne n hn port rfl (he ▸ hp), hpo⟩

end Ports

/-! ## Validity -/

/-- The conditions that couple service instances, routes, domains and ports. -/
structure Coupled (http : HttpCrate) (reserved : HashMap UInt16 String) (instances : Set Service)
    (routes : List Route) : Prop where
  health : ∀ s ∈ instances, HealthOk s
  domains : ∀ s ∈ instances, ∀ t ∈ instances, ∀ d ∈ s.domains, d ∈ t.domains → s.name = t.name
  target : ∀ r ∈ routes, ∃ s ∈ instances, s.name = r.service
  protocol : ∀ r ∈ routes, ∀ s ∈ instances, s.name = r.service → s.protocol = .http
  routes : ∀ r ∈ routes,
    validateRoutes http r.service (routes.filter (·.service == r.service)) = .ok ()
  ports : ∀ s ∈ instances, ∀ t ∈ instances, ∀ p q, s.localPort = some p → t.localPort = some q →
    (s.name = t.name ↔ p = q)
  free : ∀ s ∈ instances, ∀ p, s.localPort = some p → p ≠ 0 ∧ p ∉ reserved

structure Unique (dc : DynamicConfig) : Prop where
  groups : (dc.serviceGroups.map (·.name)).Nodup
  services : ∀ g ∈ dc.serviceGroups, (g.services.map instanceKey).Nodup

structure Valid (http : HttpCrate) (cfg : Config) : Prop where
  unique : Unique cfg.dynamicConfig
  coupled : ∃ reserved, cfg.reservedPorts = .ok reserved ∧
    Coupled http reserved {s | s ∈ cfg.dynamicConfig.instances} cfg.dynamicConfig.routes
  tracing : ∀ t, cfg.tracing = some t → t.validate http = .ok ()
  filter : cfg.subscribeFilter.isSome = true → cfg.subscribes = true

theorem consistent_claimsOf {services : List Service} :
    Consistent (claimsOf services) ↔
      ∀ s ∈ services, ∀ t ∈ services, ∀ d ∈ s.domains, d ∈ t.domains → s.name = t.name := by
  simp only [Consistent, claimsOf, List.mem_flatMap, List.mem_map, Prod.mk.injEq]
  constructor
  · intro h s hs t ht d hd hd'
    exact h d s.name t.name ⟨s, hs, d, hd, rfl, rfl⟩ ⟨t, ht, d, hd', rfl, rfl⟩
  · rintro h d n m ⟨s, hs, _, hd, rfl, rfl⟩ ⟨t, ht, _, hd', rfl, rfl⟩
    exact h s hs t ht _ hd hd'

theorem validateGroups_valid (dc : DynamicConfig) :
    validateGroups dc.serviceGroups [] ∅ = .ok () ↔
      Unique dc ∧ (∀ s ∈ dc.instances, HealthOk s) ∧
        ∀ s ∈ dc.instances, ∀ t ∈ dc.instances, ∀ d ∈ s.domains, d ∈ t.domains →
          s.name = t.name := by
  have howns : Owns ∅ [] := fun d n => by simp
  rw [validateGroups_ok _ _ howns, List.nil_append, consistent_claimsOf]
  constructor
  · rintro ⟨⟨hd, hs⟩, hc⟩
    refine ⟨⟨List.distinctFrom_nil.mp hd, fun g hg => List.distinctFrom_nil.mp (hs g hg).distinct⟩,
      fun s hmem => ?_, hc⟩
    obtain ⟨g, hg, hsg⟩ := List.mem_flatMap.mp hmem
    exact (hs g hg).health s hsg
  · rintro ⟨⟨hg, hs⟩, hh, hc⟩
    refine ⟨⟨List.distinctFrom_nil.mpr hg, fun g hg => ⟨?_, ?_⟩⟩, hc⟩
    · exact List.distinctFrom_nil.mpr (hs g hg)
    · exact fun s hsg => hh s (List.mem_flatMap.mpr ⟨g, hg, hsg⟩)

theorem validateRouteTarget_ok {dc : DynamicConfig} {service : String} :
    dc.validateRouteTarget service = .ok () ↔
      (∃ s ∈ dc.instances, s.name = service) ∧
        ∀ s ∈ dc.instances, s.name = service → s.protocol = .http := by
  unfold DynamicConfig.validateRouteTarget
  dsimp only
  split_ifs with he ha
  · refine ⟨nofun, ?_⟩
    rintro ⟨⟨s, hs, hn⟩, -⟩
    simp only [List.isEmpty_iff, List.filter_eq_nil_iff, beq_iff_eq] at he
    exact absurd hn (he s hs)
  · refine ⟨nofun, ?_⟩
    rintro ⟨-, hall⟩
    simp only [List.any_eq_true, List.mem_filter, beq_iff_eq, bne_iff_ne] at ha
    obtain ⟨s, ⟨hs, hn⟩, hp⟩ := ha
    exact absurd (hall s hs hn) hp
  · refine ⟨fun _ => ⟨?_, fun s hs hn => ?_⟩, fun _ => rfl⟩
    · simp only [List.isEmpty_iff, List.filter_eq_nil_iff, beq_iff_eq, not_forall] at he
      obtain ⟨s, hs, hn⟩ := he
      exact ⟨s, hs, not_not.mp hn⟩
    · by_contra hp
      exact ha (List.any_eq_true.mpr ⟨s, by simp [hs, hn], by simpa using hp⟩)

theorem validateRouted_valid (http : HttpCrate) (dc : DynamicConfig) :
    checkAll (validateRouted http dc) (dc.routes.map (·.service)).sortDedup = .ok () ↔
      ∀ r ∈ dc.routes, ((∃ s ∈ dc.instances, s.name = r.service) ∧
        ∀ s ∈ dc.instances, s.name = r.service → s.protocol = .http) ∧
        validateRoutes http r.service (dc.routes.filter (·.service == r.service)) = .ok () := by
  rw [checkAll_ok]
  simp only [List.mem_sortDedup, List.mem_map, forall_exists_index, and_imp,
    forall_apply_eq_imp_iff₂]
  apply forall₂_congr
  intro r hr
  rw [← validateRouteTarget_ok]
  unfold validateRouted
  cases dc.validateRouteTarget r.service with
  | error e => simp
  | ok u => simp

theorem claimPorts_valid (dc : DynamicConfig) (reserved : HashMap UInt16 String) :
    claimPorts dc (serviceNames dc) reserved = .ok () ↔
      (∀ s ∈ dc.instances, ∀ t ∈ dc.instances, ∀ p q, s.localPort = some p → t.localPort = some q →
        (s.name = t.name ↔ p = q)) ∧
      ∀ s ∈ dc.instances, ∀ p, s.localPort = some p → p ≠ 0 ∧ p ∉ reserved := by
  have hnames : ∀ n, n ∈ serviceNames dc ↔ ∃ s ∈ dc.instances, s.name = n := fun n => by
    simp [serviceNames]
  rw [claimPorts_ok]
  constructor
  · rintro ⟨hall, hpair⟩
    have hfor : ∀ s ∈ dc.instances, ∀ p, s.localPort = some p →
        dc.localPortFor s.name = .ok (some p) := by
      intro s hs p hp
      obtain ⟨r, hr⟩ := (hall s.name ((hnames _).mpr ⟨s, hs, rfl⟩)).1
      rw [hr, localPortFor_agree hr ⟨s, hs, rfl, hp⟩]
    refine ⟨fun s hs t ht p q hp hq => ⟨fun hn => ?_, ?_⟩, fun s hs p hp => ?_⟩
    · have hs' := hfor s hs p hp
      rw [hn, hfor t ht q hq] at hs'
      exact (Option.some.inj (Except.ok.inj hs')).symm
    · rintro rfl
      by_contra hn
      have : Std.Symm fun a b => ∀ p, dc.localPortFor a = .ok (some p) →
          dc.localPortFor b ≠ .ok (some p) := ⟨fun a b h p hb ha => h p ha hb⟩
      exact hpair.forall ((hnames _).mpr ⟨s, hs, rfl⟩) ((hnames _).mpr ⟨t, ht, rfl⟩) hn p
        (hfor s hs p hp) (hfor t ht p hq)
    · exact (hall s.name ((hnames _).mpr ⟨s, hs, rfl⟩)).2 p (hfor s hs p hp)
  · rintro ⟨hagree, hfree⟩
    refine ⟨fun n _ => ⟨localPortFor_isOk.mpr ?_, fun p hp => ?_⟩,
      (List.nodup_sortDedup _).pairwise_of_forall_ne fun a _ b _ hab p hpa hpb => ?_⟩
    · rintro p q ⟨s, hs, hsn, hp⟩ ⟨t, ht, htn, hq⟩
      exact (hagree s hs t ht p q hp hq).mp (hsn.trans htn.symm)
    · obtain ⟨s, hs, _, hsp⟩ := asksFor_of_localPortFor hp
      exact hfree s hs p hsp
    · obtain ⟨s, hs, hsn, hsp⟩ := asksFor_of_localPortFor hpa
      obtain ⟨t, ht, htn, htp⟩ := asksFor_of_localPortFor hpb
      exact hab (hsn.symm.trans (((hagree s hs t ht p p hsp htp).mpr rfl).trans htn))

/-- `validate` returns `Ok` exactly on the valid configurations. -/
theorem validate_ok_iff (http : HttpCrate) (cfg : Config) :
    cfg.validate http = .ok () ↔ Valid http cfg := by
  have hg := validateGroups_valid cfg.dynamicConfig
  have hr := validateRouted_valid http cfg.dynamicConfig
  have hp := claimPorts_valid cfg.dynamicConfig
  simp only [validate, bind_ok, @checkAll_ok _ (TracingConfig.validate http)]
  constructor
  · rintro ⟨_, hgroups, _, hrouted, reserved, hreserved, _, hports, _, htracing, hf⟩
    obtain ⟨hu, hh, hd⟩ := hg.mp hgroups
    have hro := hr.mp hrouted
    obtain ⟨hagree, hfree⟩ := (hp reserved).mp hports
    refine ⟨hu, ⟨reserved, hreserved, ⟨hh, hd, fun r h => (hro r h).1.1, fun r h => (hro r h).1.2,
      fun r h => (hro r h).2, hagree, hfree⟩⟩, fun t ht => htracing t (by simp [ht]), fun hs => ?_⟩
    by_contra hsub
    rw [Bool.not_eq_true] at hsub
    simp [hs, hsub] at hf
  · rintro ⟨hu, ⟨reserved, hres, hc⟩, ht, hf⟩
    refine ⟨(), hg.mpr ⟨hu, hc.health, hc.domains⟩, (), hr.mpr fun r h => ?_, reserved, hres,
      (), (hp reserved).mpr ⟨hc.ports, hc.free⟩, (), fun t h => ht t (by simpa using h), ?_⟩
    · exact ⟨⟨hc.target r h, hc.protocol r h⟩, hc.routes r h⟩
    · rw [if_neg]
      · rfl
      · intro hbad
        obtain ⟨hs, hns⟩ := Bool.and_eq_true_iff.mp hbad
        rw [hf hs] at hns
        cases hns

end Config

end Stouter
