import Stouter.Config.Basic

/-! # Mutations of the dynamic configuration

The four operations of the local CLI and the admin RPC, each returning what
the source returns together with the configuration it leaves behind, also
when it fails. Viewed through `entries`, a configuration with unique group
names and unique instances in each group is a finite map from
`(group, node, name)` to services, and the operations insert, erase and move
one key of it.
-/

namespace Stouter

inductive MutateErr
  | groupNotFound (group : String)
  | serviceNotFound (group node name : String)
  | duplicateService (group node name : String)
  | invalid (msg : String)
  deriving DecidableEq, Repr

/-- The text shown to the CLI user and returned by the admin RPC. -/
def MutateErr.display : MutateErr → String
  | .groupNotFound group => s!"group '{group}' not found"
  | .serviceNotFound group node name =>
    s!"service '{name}' on node '{node}' not found in group '{group}'"
  | .duplicateService group node name =>
    s!"service '{name}' already exists on node '{node}' in group '{group}'"
  | .invalid msg => msg

/-- A result together with the configuration the call leaves behind. -/
abbrev Mutated := Except MutateErr UInt64 × DynamicConfig

theorem toNat_version_succ {v : UInt64} (h : v.toNat + 1 < 2 ^ 64) :
    (v + 1).toNat = v.toNat + 1 := by
  rw [UInt64.toNat_add]
  exact Nat.mod_eq_of_lt h

namespace DynamicConfig

/-- `self.version += 1`, returning the new version. The addition wraps, as in a release build. -/
def bump (dc : DynamicConfig) : Mutated :=
  (.ok (dc.version + 1), { dc with version := dc.version + 1 })

def isInstance (node name : String) (s : Service) : Bool := s.name == name && s.nodeId == node

/-- Replace the instance of `service` in the group, or append it. -/
def upsertIn (service : Service) (g : ServiceGroup) : ServiceGroup :=
  let same := isInstance service.nodeId service.name
  match g.services.find? same with
  | some _ => { g with services := g.services.updateFirst same fun _ => service }
  | none => { g with services := g.services ++ [service] }

def upsertService (dc : DynamicConfig) (group : String) (service : Service) : Mutated :=
  match dc.serviceGroups.find? (·.name == group) with
  | some _ =>
    bump { dc with serviceGroups :=
      dc.serviceGroups.updateFirst (·.name == group) (upsertIn service) }
  | none => bump { dc with serviceGroups := dc.serviceGroups ++ [⟨group, [service]⟩] }

/-- The fixed local proxy port of a service, or an error if its instances disagree. -/
def localPortFor (dc : DynamicConfig) (service : String) : Except String (Option UInt16) :=
  match ((dc.instances.filter (·.name == service)).filterMap (·.localPort)).sortDedup with
  | [] => .ok none
  | [port] => .ok (some port)
  | many => .error s!"instances of '{service}' set different localPorts: {many}"

def validateRouteTarget (dc : DynamicConfig) (service : String) : Except String Unit :=
  let instances := dc.instances.filter (·.name == service)
  if instances.isEmpty then
    .error s!"routes reference unknown service '{service}'"
  else if instances.any (·.protocol != .http) then
    .error s!"routes for '{service}' require every instance to have protocol: http"
  else
    .ok ()

def setRoutes (http : HttpCrate) (dc : DynamicConfig) (service : String) (routes : List Route) :
    Mutated :=
  let target := if routes.isEmpty then .ok () else dc.validateRouteTarget service
  match target with
  | .error msg => (.error (.invalid msg), dc)
  | .ok () =>
    match validateRoutes http service routes with
    | .error msg => (.error (.invalid msg), dc)
    | .ok () =>
      let insertAt := dc.routes.findIdx? (·.service == service)
      let kept := dc.routes.filter (·.service != service)
      let at_ := min (insertAt.getD kept.length) kept.length
      bump { dc with routes := kept.take at_ ++ routes ++ kept.drop at_ }

def removeIn (node name : String) (g : ServiceGroup) : ServiceGroup :=
  { g with services := g.services.filter fun s => !isInstance node name s }

/-- Remove the service identified by `(group, ownerNodeId, name)`. -/
def removeService (dc : DynamicConfig) (group ownerNodeId name : String) : Mutated :=
  match dc.serviceGroups.find? (·.name == group) with
  | none => (.error (.groupNotFound group), dc)
  | some g =>
    let dc' := { dc with serviceGroups :=
      dc.serviceGroups.updateFirst (·.name == group) (removeIn ownerNodeId name) }
    -- The entries are dropped first; an unchanged length means nothing matched.
    if (removeIn ownerNodeId name g).services.length = g.services.length then
      (.error (.serviceNotFound group ownerNodeId name), dc')
    else
      bump dc'

/-- Rename the first instance of `(node, source)` in the group. -/
def renameIn (node source target : String) (g : ServiceGroup) : ServiceGroup :=
  { g with services :=
    g.services.updateFirst (isInstance node source) fun svc => { svc with name := target } }

def renameService (dc : DynamicConfig) (group ownerNodeId source target : String) : Mutated :=
  match dc.serviceGroups.find? (·.name == group) with
  | none => (.error (.groupNotFound group), dc)
  | some g =>
    if g.services.any (isInstance ownerNodeId target) then
      (.error (.duplicateService group ownerNodeId target), dc)
    else
      match g.services.find? (isInstance ownerNodeId source) with
      | none => (.error (.serviceNotFound group ownerNodeId source), dc)
      | some _ =>
        bump { dc with serviceGroups :=
          dc.serviceGroups.updateFirst (·.name == group) (renameIn ownerNodeId source target) }

end DynamicConfig

inductive AdminOp
  | serviceAdd (group name ownerNodeId : String) (port : UInt16) (domains : List String)
      (weight : UInt32) (maxConnections : Option UInt32) (protocol : Protocol)
      (requestTimeoutMs : Option UInt64) (healthPath : Option String) (labels metadata : Labels)
      (localPort : Option UInt16)
  | routesSet (service : String) (routes : List Route)
  | serviceRename (group ownerNodeId source target : String)
  | serviceRemove (group ownerNodeId name : String)
  deriving DecidableEq

/-- The mutation `handle_admin_request` performs under the write lock. -/
def AdminOp.mutate (http : HttpCrate) (dc : DynamicConfig) : AdminOp → Mutated
  | .serviceAdd group name ownerNodeId port domains weight maxConnections protocol
      requestTimeoutMs healthPath labels metadata localPort =>
    let svc : Service :=
      { name, nodeId := ownerNodeId, nodePort := port, domains, weight, maxConnections, protocol,
        requestTimeoutMs, healthPath, labels, metadata, localPort }
    match svc.healthPath.map validateHealthPath with
    | some (.error msg) => (.error (.invalid msg), dc)
    | _ => dc.upsertService group svc
  | .routesSet service routes => dc.setRoutes http service routes
  | .serviceRename group ownerNodeId source target =>
    dc.renameService group ownerNodeId source target
  | .serviceRemove group ownerNodeId name => dc.removeService group ownerNodeId name

/-- `ServiceAdd` with the defaults of its optional fields. -/
def AdminOp.plainAdd (group name ownerNodeId : String) (port : UInt16) : AdminOp :=
  .serviceAdd group name ownerNodeId port [] 1 none .tcp none none ∅ ∅ none

/-! ## What a mutation does to the version -/

namespace DynamicConfig

/-- Either a failure that leaves the configuration alone, or a success that bumps its version. -/
def Mutates (dc : DynamicConfig) (r : Mutated) : Prop :=
  (∃ err, r = (.error err, dc)) ∨
    r.1 = .ok (dc.version + 1) ∧ r.2.version = dc.version + 1

variable (dc : DynamicConfig)

theorem mutates_bump {dc' : DynamicConfig} (h : dc'.version = dc.version) :
    Mutates dc (bump dc') := by
  right
  simp [bump, h]

theorem mutates_upsertService (group : String) (service : Service) :
    Mutates dc (dc.upsertService group service) := by
  unfold upsertService
  split <;> exact mutates_bump dc rfl

theorem mutates_setRoutes (http : HttpCrate) (service : String) (routes : List Route) :
    Mutates dc (dc.setRoutes http service routes) := by
  unfold setRoutes
  dsimp only
  split
  · exact .inl ⟨_, rfl⟩
  · split
    · exact .inl ⟨_, rfl⟩
    · exact mutates_bump dc rfl

theorem mutates_removeService (group ownerNodeId name : String) :
    Mutates dc (dc.removeService group ownerNodeId name) := by
  unfold removeService
  split
  · exact .inl ⟨_, rfl⟩
  · rename_i g hg
    dsimp only
    split_ifs with hl
    · -- Nothing was dropped, so the rewritten group is the group itself.
      have hs : (removeIn ownerNodeId name g).services = g.services :=
        List.filter_sublist.eq_of_length hl
      have hself : removeIn ownerNodeId name g = g := by
        cases g
        simpa [removeIn] using hs
      rw [List.updateFirst_eq_self hg hself]
      exact .inl ⟨_, rfl⟩
    · exact mutates_bump dc rfl

theorem mutates_renameService (group ownerNodeId source target : String) :
    Mutates dc (dc.renameService group ownerNodeId source target) := by
  unfold renameService
  split
  · exact .inl ⟨_, rfl⟩
  · split_ifs
    · exact .inl ⟨_, rfl⟩
    · split
      · exact .inl ⟨_, rfl⟩
      · exact mutates_bump dc rfl

end DynamicConfig

theorem AdminOp.mutates (http : HttpCrate) (dc : DynamicConfig) (op : AdminOp) :
    dc.Mutates (op.mutate http dc) := by
  cases op with
  | serviceAdd =>
    unfold AdminOp.mutate
    dsimp only
    split
    · exact .inl ⟨_, rfl⟩
    · exact dc.mutates_upsertService _ _
  | routesSet => exact dc.mutates_setRoutes http _ _
  | serviceRename => exact dc.mutates_renameService _ _ _ _
  | serviceRemove => exact dc.mutates_removeService _ _ _

end Stouter
