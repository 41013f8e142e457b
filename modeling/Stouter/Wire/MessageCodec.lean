import Stouter.Gossip.Messages
import Stouter.Wire.Encoding

/-! # The encoding of messages

Messages and admin operations are internally tagged: the variant is an entry
of its own among the fields, and fields keep the names of the source. Every
message is read back as it was sent, except that no node in it has been seen
yet.
-/

namespace Stouter

open Serde Serde.Codec

/-! ## Admin requests -/

/-- The variant name and the fields of an operation. The defaults of `ServiceAdd` serve older
senders; a current one writes every field. -/
def adminOpFields : AdminOp → String × Fields
  | .serviceAdd group name ownerNodeId port domains weight maxConnections protocol'
      requestTimeoutMs healthPath labels metadata localPort =>
    ("serviceAdd",
      [always "group" str group,
        always "name" str name,
        always "owner_node_id" str ownerNodeId,
        always "port" u16 port,
        always "domains" (list str) domains,
        always "weight" u32 weight,
        always "max_connections" (option u32) maxConnections,
        always "protocol" protocol protocol',
        always "request_timeout_ms" (option u64) requestTimeoutMs,
        always "health_path" (option str) healthPath,
        always "labels" stringMap labels,
        always "meta" stringMap metadata,
        always "local_port" (option u16) localPort])
  | .routesSet service routes =>
    ("routesSet", [always "service" str service, always "routes" (list route) routes])
  | .serviceRename group ownerNodeId source target =>
    ("serviceRename",
      [always "group" str group,
        always "owner_node_id" str ownerNodeId,
        always "from" str source,
        always "to" str target])
  | .serviceRemove group ownerNodeId name =>
    ("serviceRemove",
      [always "group" str group, always "owner_node_id" str ownerNodeId, always "name" str name])

def readAdminOp : String → Entries → Option AdminOp
  | "serviceAdd", es => do
    let group ← required str "group" es
    let name ← required str "name" es
    let ownerNodeId ← required str "owner_node_id" es
    let port ← required u16 "port" es
    let domains ← defaulted (list str) [] "domains" es
    let weight ← defaulted u32 defaultWeight "weight" es
    let maxConnections ← defaulted (option u32) none "max_connections" es
    let protocol ← defaulted protocol .tcp "protocol" es
    let requestTimeoutMs ← defaulted (option u64) none "request_timeout_ms" es
    let healthPath ← defaulted (option str) none "health_path" es
    let labels ← defaulted stringMap ∅ "labels" es
    let metadata ← defaulted stringMap ∅ "meta" es
    let localPort ← defaulted (option u16) none "local_port" es
    return .serviceAdd group name ownerNodeId port domains weight maxConnections protocol
      requestTimeoutMs healthPath labels metadata localPort
  | "routesSet", es => do
    let service ← required str "service" es
    let routes ← required (list route) "routes" es
    return .routesSet service routes
  | "serviceRename", es => do
    let group ← required str "group" es
    let ownerNodeId ← required str "owner_node_id" es
    let source ← required str "from" es
    let target ← required str "to" es
    return .serviceRename group ownerNodeId source target
  | "serviceRemove", es => do
    let group ← required str "group" es
    let ownerNodeId ← required str "owner_node_id" es
    let name ← required str "name" es
    return .serviceRemove group ownerNodeId name
  | _, _ => none

def adminOp : Codec AdminOp where
  ser op := tagged "kind" (adminOpFields op).1 (adminOpFields op).2
  de v := do
    let (variant, es) ← untag "kind" v
    readAdminOp variant es

def AdminErrCode.wireName : AdminErrCode → String
  | .unauthorized => "unauthorized"
  | .validation => "validation"
  | .notFound => "notFound"
  | .internal => "internal"

def adminErrCode : Codec AdminErrCode :=
  .unit AdminErrCode.wireName [.unauthorized, .validation, .notFound, .internal]

def adminResultFields : AdminResult → String × Fields
  | .ok newVersion => ("ok", [always "new_version" u64 newVersion])
  | .err code message => ("err", [always "code" adminErrCode code, always "message" str message])

def readAdminResult : String → Entries → Option AdminResult
  | "ok", es => do
    let newVersion ← required u64 "new_version" es
    return .ok newVersion
  | "err", es => do
    let code ← required adminErrCode "code" es
    let message ← required str "message" es
    return .err code message
  | _, _ => none

def adminResult : Codec AdminResult where
  ser r := tagged "kind" (adminResultFields r).1 (adminResultFields r).2
  de v := do
    let (variant, es) ← untag "kind" v
    readAdminResult variant es

theorem readAdminOp_present (op : AdminOp) :
    readAdminOp (adminOpFields op).1 (present (adminOpFields op).2) = some op := by
  have h := holds_present (adminOpFields op).2
    (by cases op <;> simp [adminOpFields, always])
  cases op with
  | serviceAdd =>
    simp only [Holds, adminOpFields, List.forall_mem_cons] at h
    obtain ⟨hgroup, hname, howner, hport, hdomains, hweight, hmax, hproto, htimeout, hpath, hlabels,
      hmeta, hlocal, _⟩ := h
    rw [adminOpFields, readAdminOp]
    apply bind_read (required_always hgroup (str_lawful _))
    apply bind_read (required_always hname (str_lawful _))
    apply bind_read (required_always howner (str_lawful _))
    apply bind_read (required_always hport (u16_lawful _))
    apply bind_read (defaulted_always hdomains (list_lawful str_lawful _))
    apply bind_read (defaulted_always hweight (u32_lawful _))
    apply bind_read (defaulted_always hmax (option_lawful u32_lawful uint_nonNull _))
    apply bind_read (defaulted_always hproto (protocol_lawful _))
    apply bind_read (defaulted_always htimeout (option_lawful u64_lawful uint_nonNull _))
    apply bind_read (defaulted_always hpath (option_lawful str_lawful str_nonNull _))
    apply bind_read (defaulted_always hlabels (stringMap_lawful _))
    apply bind_read (defaulted_always hmeta (stringMap_lawful _))
    apply bind_read (defaulted_always hlocal (option_lawful u16_lawful uint_nonNull _))
    rfl
  | routesSet =>
    simp only [Holds, adminOpFields, List.forall_mem_cons] at h
    obtain ⟨hservice, hroutes, _⟩ := h
    rw [adminOpFields, readAdminOp]
    apply bind_read (required_always hservice (str_lawful _))
    apply bind_read (required_always hroutes (list_lawful route_lawful _))
    rfl
  | serviceRename =>
    simp only [Holds, adminOpFields, List.forall_mem_cons] at h
    obtain ⟨hgroup, howner, hfrom, hto, _⟩ := h
    rw [adminOpFields, readAdminOp]
    apply bind_read (required_always hgroup (str_lawful _))
    apply bind_read (required_always howner (str_lawful _))
    apply bind_read (required_always hfrom (str_lawful _))
    apply bind_read (required_always hto (str_lawful _))
    rfl
  | serviceRemove =>
    simp only [Holds, adminOpFields, List.forall_mem_cons] at h
    obtain ⟨hgroup, howner, hname, _⟩ := h
    rw [adminOpFields, readAdminOp]
    apply bind_read (required_always hgroup (str_lawful _))
    apply bind_read (required_always howner (str_lawful _))
    apply bind_read (required_always hname (str_lawful _))
    rfl

theorem adminOp_lawful : adminOp.Lawful := by
  intro op
  apply bind_read (untag_tagged (by cases op <;> simp [adminOpFields, always]))
  exact readAdminOp_present op

theorem adminErrCode_lawful : adminErrCode.Lawful := by
  apply unit_lawful
  · intro x
    cases x <;> decide
  · intro x y
    cases x <;> cases y <;> decide

theorem readAdminResult_present (r : AdminResult) :
    readAdminResult (adminResultFields r).1 (present (adminResultFields r).2) = some r := by
  have h := holds_present (adminResultFields r).2
    (by cases r <;> simp [adminResultFields, always])
  cases r with
  | ok =>
    simp only [Holds, adminResultFields, List.forall_mem_cons] at h
    obtain ⟨hversion, _⟩ := h
    rw [adminResultFields, readAdminResult]
    apply bind_read (required_always hversion (u64_lawful _))
    rfl
  | err =>
    simp only [Holds, adminResultFields, List.forall_mem_cons] at h
    obtain ⟨hcode, hmessage, _⟩ := h
    rw [adminResultFields, readAdminResult]
    apply bind_read (required_always hcode (adminErrCode_lawful _))
    apply bind_read (required_always hmessage (str_lawful _))
    rfl

theorem adminResult_lawful : adminResult.Lawful := by
  intro r
  apply bind_read (untag_tagged (by cases r <;> simp [adminResultFields, always]))
  exact readAdminResult_present r

/-! ## Messages -/

def messageFields : Message → String × Fields
  | .sync config nodes =>
    ("sync", [always "config" dynamicConfig config, always "nodes" (list nodeInfo) nodes])
  | .configUpdate config => ("configUpdate", [always "config" dynamicConfig config])
  | .nodeJoin id addr => ("nodeJoin", [always "id" str id, always "addr" str addr])
  | .nodeLeave id => ("nodeLeave", [always "id" str id])
  | .tunnelRequest nodeId serviceName timestampMs =>
    ("tunnelRequest",
      [always "node_id" str nodeId,
        always "service_name" str serviceName,
        always "timestamp_ms" u64 timestampMs])
  | .reverseRegistration nodeId timestampMs =>
    ("reverseRegistration",
      [always "node_id" str nodeId, always "timestamp_ms" u64 timestampMs])
  | .statusRequest => ("statusRequest", [])
  | .statusResponse mode nodeId bind config knownNodes =>
    ("statusResponse",
      [always "mode" str mode,
        always "node_id" str nodeId,
        always "bind" str bind,
        always "dynamic_config" dynamicConfig config,
        always "known_nodes" (list nodeInfo) knownNodes])
  | .muxTunnel => ("muxTunnel", [])
  | .adminRequest op => ("adminRequest", [always "op" adminOp op])
  | .adminResponse result => ("adminResponse", [always "result" adminResult result])

def readMessage : String → Entries → Option Message
  | "sync", es => do
    let config ← required dynamicConfig "config" es
    let nodes ← required (list nodeInfo) "nodes" es
    return .sync config nodes
  | "configUpdate", es => do
    let config ← required dynamicConfig "config" es
    return .configUpdate config
  | "nodeJoin", es => do
    let id ← required str "id" es
    let addr ← required str "addr" es
    return .nodeJoin id addr
  | "nodeLeave", es => do
    let id ← required str "id" es
    return .nodeLeave id
  | "tunnelRequest", es => do
    let nodeId ← required str "node_id" es
    let serviceName ← required str "service_name" es
    let timestampMs ← required u64 "timestamp_ms" es
    return .tunnelRequest nodeId serviceName timestampMs
  | "reverseRegistration", es => do
    let nodeId ← required str "node_id" es
    let timestampMs ← required u64 "timestamp_ms" es
    return .reverseRegistration nodeId timestampMs
  | "statusRequest", _ => return .statusRequest
  | "statusResponse", es => do
    let mode ← required str "mode" es
    let nodeId ← required str "node_id" es
    let bind ← required str "bind" es
    let config ← required dynamicConfig "dynamic_config" es
    let knownNodes ← required (list nodeInfo) "known_nodes" es
    return .statusResponse mode nodeId bind config knownNodes
  | "muxTunnel", _ => return .muxTunnel
  | "adminRequest", es => do
    let op ← required adminOp "op" es
    return .adminRequest op
  | "adminResponse", es => do
    let result ← required adminResult "result" es
    return .adminResponse result
  | _, _ => none

def message : Codec Message where
  ser m := tagged "type" (messageFields m).1 (messageFields m).2
  de v := do
    let (variant, es) ← untag "type" v
    readMessage variant es

def Message.nodeInfos : Message → List NodeInfo
  | .sync _ nodes => nodes
  | .statusResponse _ _ _ _ knownNodes => knownNodes
  | _ => []

/-- A message as another daemon first hears of its nodes. -/
def Message.unseen : Message → Message
  | .sync config nodes => .sync config (nodes.map (·.unseen))
  | .statusResponse mode nodeId bind config knownNodes =>
    .statusResponse mode nodeId bind config (knownNodes.map (·.unseen))
  | m => m

theorem nodeInfos_return {nodes : List NodeInfo} (h : ∀ n ∈ nodes, n.health.Published) :
    (list nodeInfo).Returns nodes (nodes.map (·.unseen)) :=
  list_returns fun n hn => nodeInfo_returns (h n hn)

theorem readMessage_present {m : Message} (hm : ∀ n ∈ m.nodeInfos, n.health.Published) :
    readMessage (messageFields m).1 (present (messageFields m).2) = some m.unseen := by
  have h := holds_present (messageFields m).2
    (by cases m <;> simp [messageFields, always])
  cases m with
  | sync =>
    simp only [Holds, messageFields, List.forall_mem_cons] at h
    obtain ⟨hconfig, hnodes, _⟩ := h
    rw [messageFields, readMessage]
    apply bind_read (required_always hconfig (dynamicConfig_lawful _))
    apply bind_read (required_always hnodes (nodeInfos_return hm))
    rfl
  | configUpdate =>
    simp only [Holds, messageFields, List.forall_mem_cons] at h
    obtain ⟨hconfig, _⟩ := h
    rw [messageFields, readMessage]
    apply bind_read (required_always hconfig (dynamicConfig_lawful _))
    rfl
  | nodeJoin =>
    simp only [Holds, messageFields, List.forall_mem_cons] at h
    obtain ⟨hid, haddr, _⟩ := h
    rw [messageFields, readMessage]
    apply bind_read (required_always hid (str_lawful _))
    apply bind_read (required_always haddr (str_lawful _))
    rfl
  | nodeLeave =>
    simp only [Holds, messageFields, List.forall_mem_cons] at h
    obtain ⟨hid, _⟩ := h
    rw [messageFields, readMessage]
    apply bind_read (required_always hid (str_lawful _))
    rfl
  | tunnelRequest =>
    simp only [Holds, messageFields, List.forall_mem_cons] at h
    obtain ⟨hnode, hservice, htime, _⟩ := h
    rw [messageFields, readMessage]
    apply bind_read (required_always hnode (str_lawful _))
    apply bind_read (required_always hservice (str_lawful _))
    apply bind_read (required_always htime (u64_lawful _))
    rfl
  | reverseRegistration =>
    simp only [Holds, messageFields, List.forall_mem_cons] at h
    obtain ⟨hnode, htime, _⟩ := h
    rw [messageFields, readMessage]
    apply bind_read (required_always hnode (str_lawful _))
    apply bind_read (required_always htime (u64_lawful _))
    rfl
  | statusRequest => rw [messageFields, readMessage]; rfl
  | statusResponse =>
    simp only [Holds, messageFields, List.forall_mem_cons] at h
    obtain ⟨hmode, hnode, hbind, hconfig, hknown, _⟩ := h
    rw [messageFields, readMessage]
    apply bind_read (required_always hmode (str_lawful _))
    apply bind_read (required_always hnode (str_lawful _))
    apply bind_read (required_always hbind (str_lawful _))
    apply bind_read (required_always hconfig (dynamicConfig_lawful _))
    apply bind_read (required_always hknown (nodeInfos_return hm))
    rfl
  | muxTunnel => rw [messageFields, readMessage]; rfl
  | adminRequest =>
    simp only [Holds, messageFields, List.forall_mem_cons] at h
    obtain ⟨hop, _⟩ := h
    rw [messageFields, readMessage]
    apply bind_read (required_always hop (adminOp_lawful _))
    rfl
  | adminResponse =>
    simp only [Holds, messageFields, List.forall_mem_cons] at h
    obtain ⟨hresult, _⟩ := h
    rw [messageFields, readMessage]
    apply bind_read (required_always hresult (adminResult_lawful _))
    rfl

theorem message_returns {m : Message} (hm : ∀ n ∈ m.nodeInfos, n.health.Published) :
    message.Returns m m.unseen := by
  apply bind_read (untag_tagged (by cases m <;> simp [messageFields, always]))
  exact readMessage_present hm

/-- Every message of every variant is received as it was sent, except that its nodes have not been
seen yet, and every configuration is loaded as it was saved. -/
theorem encoding_round_trip (m : Message) (cfg : Config)
    (hm : ∀ n ∈ m.nodeInfos, n.health.version = 0 → n.health.unhealthy = []) :
    message.de (message.ser m) = some m.unseen ∧
      configFile.de (configFile.ser cfg) = some cfg :=
  ⟨message_returns hm, configFile_lawful cfg⟩

/-- A full synchronisation: one weighted instance, and two nodes of which one has reported. -/
def sampleSync : Message :=
  .sync
    { version := 7
      serviceGroups := [⟨"web", [
        { name := "api", nodeId := "n1", nodePort := 3000, domains := [], weight := 4
          maxConnections := none, protocol := .http, requestTimeoutMs := some 500
          healthPath := none, labels := .ofList [("version", "v2")], metadata := ∅
          localPort := none }]⟩]
      routes := [⟨none, "api", ⟨some "/v2", none, ∅⟩, [⟨∅, 1⟩]⟩] }
    [⟨"n1", "10.0.0.1:8080", none, some 5, ⟨3, ["api"]⟩⟩, ⟨"n2", "", some "n1:8080", none, ⟨0, []⟩⟩]

theorem encoding_round_trip_sampleSync :
    (∀ n ∈ sampleSync.nodeInfos, n.health.version = 0 → n.health.unhealthy = []) ∧
      message.de (message.ser sampleSync) = some sampleSync.unseen ∧
      configFile.de (configFile.ser .default) = some .default := by
  have hm : ∀ n ∈ sampleSync.nodeInfos, n.health.version = 0 → n.health.unhealthy = [] := by decide
  exact ⟨hm, encoding_round_trip sampleSync .default hm⟩

end Stouter
