import Stouter.Gossip.Membership
import Stouter.Gossip.Store
import Stouter.Serde.Basic

/-! # The encoding of configurations and nodes

The derived serializers of the configuration, the config file and the
membership table, field by field: name, skip condition and default. Every
configuration is read back as it was saved, and every node with a published
health report as it was sent, up to its local liveness marker.
-/

namespace Stouter

open Serde Serde.Codec

/-! ## Services -/

def defaultWeight : UInt32 := 1

def isDefaultWeight (w : UInt32) : Bool := w == defaultWeight

def Protocol.isTcp (p : Protocol) : Bool := p == .tcp

def Protocol.wireName : Protocol → String
  | .tcp => "tcp"
  | .http => "http"

def protocol : Codec Protocol := .unit Protocol.wireName [.tcp, .http]

def serviceFields (s : Service) : Fields :=
  [always "name" str s.name,
    always "nodeId" str s.nodeId,
    always "nodePort" u16 s.nodePort,
    skipIf s.domains.isEmpty "domains" (list str) s.domains,
    skipIf (isDefaultWeight s.weight) "weight" u32 s.weight,
    skipIf s.maxConnections.isNone "maxConnections" (option u32) s.maxConnections,
    skipIf s.protocol.isTcp "protocol" protocol s.protocol,
    skipIf s.requestTimeoutMs.isNone "requestTimeoutMs" (option u64) s.requestTimeoutMs,
    skipIf s.healthPath.isNone "healthPath" (option str) s.healthPath,
    skipIf s.labels.isEmpty "labels" stringMap s.labels,
    skipIf s.metadata.isEmpty "meta" stringMap s.metadata,
    skipIf s.localPort.isNone "localPort" (option u16) s.localPort]

def service : Codec Service where
  ser s := .map (present (serviceFields s))
  de v := do
    let es ← asMap v
    let name ← required str "name" es
    let nodeId ← required str "nodeId" es
    let nodePort ← required u16 "nodePort" es
    let domains ← defaulted (list str) [] "domains" es
    let weight ← defaulted u32 defaultWeight "weight" es
    let maxConnections ← defaulted (option u32) none "maxConnections" es
    let protocol ← defaulted protocol .tcp "protocol" es
    let requestTimeoutMs ← defaulted (option u64) none "requestTimeoutMs" es
    let healthPath ← defaulted (option str) none "healthPath" es
    let labels ← defaulted stringMap ∅ "labels" es
    let metadata ← defaulted stringMap ∅ "meta" es
    let localPort ← defaulted (option u16) none "localPort" es
    return { name, nodeId, nodePort, domains, weight, maxConnections, protocol, requestTimeoutMs,
             healthPath, labels, metadata, localPort }

theorem protocol_lawful : protocol.Lawful := by
  apply unit_lawful
  · intro x
    cases x <;> decide
  · intro x y
    cases x <;> cases y <;> decide

theorem defaulted_weight {es : Entries} {name : String} {w : UInt32}
    (h : field? name es = some (skipIf (isDefaultWeight w) name u32 w).2) :
    defaulted u32 defaultWeight name es = some w :=
  defaulted_skipIf h (by simp [isDefaultWeight]) fun _ => u32_lawful w

theorem service_lawful : service.Lawful := by
  intro s
  have h := holds_present (serviceFields s) (by simp [serviceFields, always, skipIf])
  simp only [Holds, serviceFields, List.forall_mem_cons] at h
  obtain ⟨hname, hnode, hport, hdomains, hweight, hmax, hproto, htimeout, hpath, hlabels, hmeta,
    hlocal, _⟩ := h
  apply bind_read rfl
  apply bind_read (required_always hname (str_lawful _))
  apply bind_read (required_always hnode (str_lawful _))
  apply bind_read (required_always hport (u16_lawful _))
  apply bind_read (defaulted_isEmpty hdomains str_lawful)
  apply bind_read (defaulted_weight hweight)
  apply bind_read (defaulted_isNone hmax u32_lawful uint_nonNull)
  apply bind_read (defaulted_skipIf hproto (by simp [Protocol.isTcp]) fun _ => protocol_lawful _)
  apply bind_read (defaulted_isNone htimeout u64_lawful uint_nonNull)
  apply bind_read (defaulted_isNone hpath str_lawful str_nonNull)
  apply bind_read (defaulted_stringMap hlabels)
  apply bind_read (defaulted_stringMap hmeta)
  apply bind_read (defaulted_isNone hlocal u16_lawful uint_nonNull)
  rfl

/-! ## Routes -/

def routeMatchFields (m : RouteMatch) : Fields :=
  [skipIf m.pathPrefix.isNone "pathPrefix" (option str) m.pathPrefix,
    skipIf m.method.isNone "method" (option str) m.method,
    skipIf m.headers.isEmpty "headers" stringMap m.headers]

def routeMatch : Codec RouteMatch where
  ser m := .map (present (routeMatchFields m))
  de v := do
    let es ← asMap v
    let pathPrefix ← defaulted (option str) none "pathPrefix" es
    let method ← defaulted (option str) none "method" es
    let headers ← defaulted stringMap ∅ "headers" es
    return { pathPrefix, method, headers }

def routeBackendFields (b : RouteBackend) : Fields :=
  [skipIf b.labels.isEmpty "labels" stringMap b.labels,
    skipIf (isDefaultWeight b.weight) "weight" u32 b.weight]

def routeBackend : Codec RouteBackend where
  ser b := .map (present (routeBackendFields b))
  de v := do
    let es ← asMap v
    let labels ← defaulted stringMap ∅ "labels" es
    let weight ← defaulted u32 defaultWeight "weight" es
    return { labels, weight }

def routeFields (r : Route) : Fields :=
  [skipIf r.name.isNone "name" (option str) r.name,
    always "service" str r.service,
    always "match" routeMatch r.routeMatch,
    always "backends" (list routeBackend) r.backends]

def route : Codec Route where
  ser r := .map (present (routeFields r))
  de v := do
    let es ← asMap v
    let name ← defaulted (option str) none "name" es
    let service ← required str "service" es
    let matches_ ← defaulted routeMatch ⟨none, none, ∅⟩ "match" es
    let backends ← required (list routeBackend) "backends" es
    return { name, service, routeMatch := matches_, backends }

theorem routeMatch_lawful : routeMatch.Lawful := by
  intro m
  have h := holds_present (routeMatchFields m) (by simp [routeMatchFields, skipIf])
  simp only [Holds, routeMatchFields, List.forall_mem_cons] at h
  obtain ⟨hpath, hmethod, hheaders, _⟩ := h
  apply bind_read rfl
  apply bind_read (defaulted_isNone hpath str_lawful str_nonNull)
  apply bind_read (defaulted_isNone hmethod str_lawful str_nonNull)
  apply bind_read (defaulted_stringMap hheaders)
  rfl

theorem routeBackend_lawful : routeBackend.Lawful := by
  intro b
  have h := holds_present (routeBackendFields b) (by simp [routeBackendFields, skipIf])
  simp only [Holds, routeBackendFields, List.forall_mem_cons] at h
  obtain ⟨hlabels, hweight, _⟩ := h
  apply bind_read rfl
  apply bind_read (defaulted_stringMap hlabels)
  apply bind_read (defaulted_weight hweight)
  rfl

theorem route_lawful : route.Lawful := by
  intro r
  have h := holds_present (routeFields r) (by simp [routeFields, always, skipIf])
  simp only [Holds, routeFields, List.forall_mem_cons] at h
  obtain ⟨hname, hservice, hmatch, hbackends, _⟩ := h
  apply bind_read rfl
  apply bind_read (defaulted_isNone hname str_lawful str_nonNull)
  apply bind_read (required_always hservice (str_lawful _))
  apply bind_read (defaulted_always hmatch (routeMatch_lawful _))
  apply bind_read (required_always hbackends (list_lawful routeBackend_lawful _))
  rfl

/-! ## The dynamic configuration -/

def serviceGroupFields (g : ServiceGroup) : Fields :=
  [always "name" str g.name, always "services" (list service) g.services]

def serviceGroup : Codec ServiceGroup where
  ser g := .map (present (serviceGroupFields g))
  de v := do
    let es ← asMap v
    let name ← required str "name" es
    let services ← required (list service) "services" es
    return { name, services }

def dynamicConfigFields (dc : DynamicConfig) : Fields :=
  [always "version" u64 dc.version,
    always "serviceGroups" (list serviceGroup) dc.serviceGroups,
    skipIf dc.routes.isEmpty "routes" (list route) dc.routes]

def dynamicConfig : Codec DynamicConfig where
  ser dc := .map (present (dynamicConfigFields dc))
  de v := do
    let es ← asMap v
    let version ← required u64 "version" es
    let serviceGroups ← required (list serviceGroup) "serviceGroups" es
    let routes ← defaulted (list route) [] "routes" es
    return { version, serviceGroups, routes }

theorem serviceGroup_lawful : serviceGroup.Lawful := by
  intro g
  have h := holds_present (serviceGroupFields g) (by simp [serviceGroupFields, always])
  simp only [Holds, serviceGroupFields, List.forall_mem_cons] at h
  obtain ⟨hname, hservices, _⟩ := h
  apply bind_read rfl
  apply bind_read (required_always hname (str_lawful _))
  apply bind_read (required_always hservices (list_lawful service_lawful _))
  rfl

theorem dynamicConfig_lawful : dynamicConfig.Lawful := by
  intro dc
  have h := holds_present (dynamicConfigFields dc)
    (by simp [dynamicConfigFields, always, skipIf])
  simp only [Holds, dynamicConfigFields, List.forall_mem_cons] at h
  obtain ⟨hversion, hgroups, hroutes, _⟩ := h
  apply bind_read rfl
  apply bind_read (required_always hversion (u64_lawful _))
  apply bind_read (required_always hgroups (list_lawful serviceGroup_lawful _))
  apply bind_read (defaulted_isEmpty hroutes route_lawful)
  rfl

/-! ## Nodes -/

def serviceHealthFields (h : ServiceHealth) : Fields :=
  [always "version" u64 h.version, skipIf h.unhealthy.isEmpty "unhealthy" (list str) h.unhealthy]

def serviceHealth : Codec ServiceHealth where
  ser h := .map (present (serviceHealthFields h))
  de v := do
    let es ← asMap v
    let version ← required u64 "version" es
    let unhealthy ← defaulted (list str) [] "unhealthy" es
    return { version, unhealthy }

/-- True if the node never reported health. -/
def ServiceHealth.isUnset (h : ServiceHealth) : Bool := h.version == 0

/-- `last_seen` is never written. -/
def nodeInfoFields (n : NodeInfo) : Fields :=
  [always "id" str n.id,
    always "addr" str n.addr,
    skipIf n.relay.isNone "relay" (option str) n.relay,
    skipIf n.health.isUnset "health" serviceHealth n.health]

def nodeInfo : Codec NodeInfo where
  ser n := .map (present (nodeInfoFields n))
  de v := do
    let es ← asMap v
    let id ← required str "id" es
    let addr ← required str "addr" es
    let relay ← defaulted (option str) none "relay" es
    let health ← defaulted serviceHealth .default "health" es
    return { id, addr, relay, lastSeen := none, health }

/-- A report with version 0 lists no service, as for every report that was not made. -/
def ServiceHealth.Published (h : ServiceHealth) : Prop := h.version = 0 → h.unhealthy = []

/-- A node as another daemon first hears of it. -/
def NodeInfo.unseen (n : NodeInfo) : NodeInfo := { n with lastSeen := none }

theorem serviceHealth_lawful : serviceHealth.Lawful := by
  intro sh
  have h := holds_present (serviceHealthFields sh)
    (by simp [serviceHealthFields, always, skipIf])
  simp only [Holds, serviceHealthFields, List.forall_mem_cons] at h
  obtain ⟨hversion, hunhealthy, _⟩ := h
  apply bind_read rfl
  apply bind_read (required_always hversion (u64_lawful _))
  apply bind_read (defaulted_isEmpty hunhealthy str_lawful)
  rfl

theorem nodeInfo_returns {n : NodeInfo} (hn : n.health.Published) :
    nodeInfo.Returns n n.unseen := by
  have h := holds_present (nodeInfoFields n) (by simp [nodeInfoFields, always, skipIf])
  simp only [Holds, nodeInfoFields, List.forall_mem_cons] at h
  obtain ⟨hid, haddr, hrelay, hhealth, _⟩ := h
  have hunset : n.health.isUnset = true → n.health = .default := by
    intro hu
    have hversion : n.health.version = 0 := by simpa [ServiceHealth.isUnset] using hu
    rcases hh : n.health with ⟨version, unhealthy⟩
    simp_all [ServiceHealth.Published, ServiceHealth.default]
  apply bind_read rfl
  apply bind_read (required_always hid (str_lawful _))
  apply bind_read (required_always haddr (str_lawful _))
  apply bind_read (defaulted_isNone hrelay str_lawful str_nonNull)
  apply bind_read (defaulted_skipIf hhealth hunset fun _ => serviceHealth_lawful _)
  rfl

/-! ## The config file -/

def Mode.wireName : Mode → String
  | .node => "node"
  | .subscribe => "subscribe"
  | .nodeSubscribe => "nodeSubscribe"

def mode : Codec Mode := .unit Mode.wireName [.node, .subscribe, .nodeSubscribe]

def subscribeFilterFields (f : SubscribeFilter) : Fields :=
  [skipIf f.serviceGroups.isEmpty "serviceGroups" (list str) f.serviceGroups,
    skipIf f.services.isEmpty "services" (list str) f.services]

def subscribeFilter : Codec SubscribeFilter where
  ser f := .map (present (subscribeFilterFields f))
  de v := do
    let es ← asMap v
    let serviceGroups ← defaulted (list str) [] "serviceGroups" es
    let services ← defaulted (list str) [] "services" es
    return { serviceGroups, services }

def tracingConfigFields (t : TracingConfig) : Fields :=
  [always "otlpEndpoint" str t.otlpEndpoint,
    always "sampleRatio" float t.sampleRatio,
    always "serviceName" str t.serviceName]

def tracingConfig : Codec TracingConfig where
  ser t := .map (present (tracingConfigFields t))
  de v := do
    let es ← asMap v
    let otlpEndpoint ← required str "otlpEndpoint" es
    let sampleRatio ← defaulted float 1.0 "sampleRatio" es
    let serviceName ← defaulted str "stouter" "serviceName" es
    return { otlpEndpoint, sampleRatio, serviceName }

def configFields (cfg : Config) : Fields :=
  [always "mode" mode cfg.mode,
    always "bind" str cfg.bind,
    skipIf cfg.advertiseAddr.isNone "advertiseAddr" (option str) cfg.advertiseAddr,
    always "nodeId" str cfg.nodeId,
    always "outboundOnly" bool cfg.outboundOnly,
    skipIf cfg.reversePoolSize.isNone "reversePoolSize" (option u16) cfg.reversePoolSize,
    always "knownNodes" (list str) cfg.knownNodes,
    always "dynamicConfig" dynamicConfig cfg.dynamicConfig,
    skipIf cfg.subscribeFilter.isNone "subscribeFilter" (option subscribeFilter)
      cfg.subscribeFilter,
    skipIf cfg.tlsDir.isNone "tlsDir" (option str) cfg.tlsDir,
    skipIf cfg.adminCns.isEmpty "adminCns" (list str) cfg.adminCns,
    skipIf cfg.apiPort.isNone "apiPort" (option u16) cfg.apiPort,
    skipIf cfg.tracing.isNone "tracing" (option tracingConfig) cfg.tracing,
    skipIf cfg.httpListen.isNone "httpListen" (option str) cfg.httpListen]

/-- What `Config::save` writes and `Config::load` reads. -/
def configFile : Codec Config where
  ser cfg := .map (present (configFields cfg))
  de v := do
    let es ← asMap v
    let mode ← required mode "mode" es
    let bind ← required str "bind" es
    let advertiseAddr ← defaulted (option str) none "advertiseAddr" es
    let nodeId ← required str "nodeId" es
    let outboundOnly ← defaulted bool false "outboundOnly" es
    let reversePoolSize ← defaulted (option u16) none "reversePoolSize" es
    let knownNodes ← required (list str) "knownNodes" es
    let dynamicConfig ← required dynamicConfig "dynamicConfig" es
    let subscribeFilter ← defaulted (option subscribeFilter) none "subscribeFilter" es
    let tlsDir ← defaulted (option str) none "tlsDir" es
    let adminCns ← defaulted (list str) [] "adminCns" es
    let apiPort ← defaulted (option u16) none "apiPort" es
    let tracing ← defaulted (option tracingConfig) none "tracing" es
    let httpListen ← defaulted (option str) none "httpListen" es
    return { mode, bind, advertiseAddr, nodeId, outboundOnly, reversePoolSize, knownNodes,
             dynamicConfig, subscribeFilter, tlsDir, adminCns, apiPort, tracing, httpListen }

theorem mode_lawful : mode.Lawful := by
  apply unit_lawful
  · intro x
    cases x <;> decide
  · intro x y
    cases x <;> cases y <;> decide

theorem subscribeFilter_lawful : subscribeFilter.Lawful := by
  intro f
  have h := holds_present (subscribeFilterFields f)
    (by simp [subscribeFilterFields, skipIf])
  simp only [Holds, subscribeFilterFields, List.forall_mem_cons] at h
  obtain ⟨hgroups, hservices, _⟩ := h
  apply bind_read rfl
  apply bind_read (defaulted_isEmpty hgroups str_lawful)
  apply bind_read (defaulted_isEmpty hservices str_lawful)
  rfl

theorem tracingConfig_lawful : tracingConfig.Lawful := by
  intro t
  have h := holds_present (tracingConfigFields t) (by simp [tracingConfigFields, always])
  simp only [Holds, tracingConfigFields, List.forall_mem_cons] at h
  obtain ⟨hendpoint, hratio, hname, _⟩ := h
  apply bind_read rfl
  apply bind_read (required_always hendpoint (str_lawful _))
  apply bind_read (defaulted_always hratio (float_lawful _))
  apply bind_read (defaulted_always hname (str_lawful _))
  rfl

theorem configFile_lawful : configFile.Lawful := by
  intro cfg
  have h := holds_present (configFields cfg) (by simp [configFields, always, skipIf])
  simp only [Holds, configFields, List.forall_mem_cons] at h
  obtain ⟨hmode, hbind, hadvertise, hnode, houtbound, hpool, hknown, hdynamic, hfilter, htls, hcns,
    hapi, htracing, hlisten, _⟩ := h
  apply bind_read rfl
  apply bind_read (required_always hmode (mode_lawful _))
  apply bind_read (required_always hbind (str_lawful _))
  apply bind_read (defaulted_isNone hadvertise str_lawful str_nonNull)
  apply bind_read (required_always hnode (str_lawful _))
  apply bind_read (defaulted_always houtbound (bool_lawful _))
  apply bind_read (defaulted_isNone hpool u16_lawful uint_nonNull)
  apply bind_read (required_always hknown (list_lawful str_lawful _))
  apply bind_read (required_always hdynamic (dynamicConfig_lawful _))
  apply bind_read (defaulted_isNone hfilter subscribeFilter_lawful fun _ => Value.noConfusion)
  apply bind_read (defaulted_isNone htls str_lawful str_nonNull)
  apply bind_read (defaulted_isEmpty hcns str_lawful)
  apply bind_read (defaulted_isNone hapi u16_lawful uint_nonNull)
  apply bind_read (defaulted_isNone htracing tracingConfig_lawful fun _ => Value.noConfusion)
  apply bind_read (defaulted_isNone hlisten str_lawful str_nonNull)
  rfl

/-- `persist_state_with` on the value in the file: load it, replace the dynamic part, save it. -/
def persistFile (saved : Bool) (dc : DynamicConfig) (file : Value) : Value :=
  match configFile.de file with
  | none => file
  | some cfg => if saved then configFile.ser { cfg with dynamicConfig := dc } else file

/-- The dynamic configuration a file holds, if it can be loaded. -/
def fileConfig (file : Value) : Option DynamicConfig := (configFile.de file).map (·.dynamicConfig)

/-- The file of a `Store` is the view of the file on disk that loading gives. -/
theorem fileConfig_persistFile (saved : Bool) (dc : DynamicConfig) (file : Value) :
    fileConfig (persistFile saved dc file) = persistStateWith saved dc (fileConfig file) := by
  cases hfile : configFile.de file with
  | none => simp [persistFile, fileConfig, hfile, persistStateWith]
  | some cfg =>
    cases saved with
    | false => simp [persistFile, fileConfig, hfile, persistStateWith]
    | true =>
      have hsaved : configFile.de (configFile.ser { cfg with dynamicConfig := dc }) = _ :=
        configFile_lawful _
      simp [persistFile, fileConfig, hfile, persistStateWith, hsaved]

end Stouter
