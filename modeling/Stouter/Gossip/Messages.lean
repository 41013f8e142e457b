import Stouter.Gossip.Membership
import Stouter.Gossip.Store

/-! # Messages and the admin handler

The messages cluster members exchange, and `handle_admin_request`: it answers
every request, and a request it does not apply leaves the store alone.
-/

namespace Stouter

inductive AdminErrCode
  | unauthorized
  | validation
  | notFound
  | internal
  deriving DecidableEq, Repr

inductive AdminResult
  | ok (newVersion : UInt64)
  | err (code : AdminErrCode) (message : String)
  deriving DecidableEq, Repr

inductive Message
  | sync (config : DynamicConfig) (nodes : List NodeInfo)
  | configUpdate (config : DynamicConfig)
  | nodeJoin (id addr : String)
  | nodeLeave (id : String)
  | tunnelRequest (nodeId serviceName : String) (timestampMs : UInt64)
  | reverseRegistration (nodeId : String) (timestampMs : UInt64)
  | statusRequest
  | statusResponse (mode nodeId bind : String) (dynamicConfig : DynamicConfig)
      (knownNodes : List NodeInfo)
  | muxTunnel
  | adminRequest (op : AdminOp)
  | adminResponse (result : AdminResult)
  deriving DecidableEq

def Message.config? : Message → Option DynamicConfig
  | .sync config _ => some config
  | .configUpdate config => some config
  | _ => none

def Message.nodes? : Message → Option (List NodeInfo)
  | .sync _ nodes => some nodes
  | _ => none

def MutateErr.code : MutateErr → AdminErrCode
  | .groupNotFound _ => .notFound
  | .serviceNotFound _ _ _ => .notFound
  | .duplicateService _ _ _ => .validation
  | .invalid _ => .validation

/-- What `handle_admin_request` leaves behind: its answer, the store, and the configuration it
broadcasts. -/
structure AdminOutcome where
  result : AdminResult
  store : Store
  broadcast : Option DynamicConfig

/-- The common name of the peer's certificate is on the allowlist. -/
def adminAllowed (cfg : Config) : Option String → Bool
  | some cn => cfg.adminCns.any (· == cn)
  | none => false

/-- Authorise the peer, mutate under the write lock, persist, and broadcast a successful change. -/
def handleAdminRequest (http : HttpCrate) (cfg : Config) (peerCn : Option String) (op : AdminOp)
    (saved : Bool) (s : Store) : AdminOutcome :=
  if !adminAllowed cfg peerCn then
    ⟨.err .unauthorized "client cert CN not in adminCns allowlist", s, none⟩
  else if cfg.mode = .subscribe then
    ⟨.err .validation "admin RPC not supported in subscribe-only mode", s, none⟩
  else
    match s.admin http op saved with
    | (.ok newVersion, s') => ⟨.ok newVersion, s', some s'.memory⟩
    | (.error err, s') => ⟨.err err.code err.display, s', none⟩

theorem handleAdminRequest_cases (http : HttpCrate) (cfg : Config) (peerCn : Option String)
    (op : AdminOp) (saved : Bool) (s : Store) :
    (∃ code msg, handleAdminRequest http cfg peerCn op saved s = ⟨.err code msg, s, none⟩) ∨
      ∃ dc, op.mutate http s.memory = (.ok (s.memory.version + 1), dc) ∧
        dc.version = s.memory.version + 1 ∧
        handleAdminRequest http cfg peerCn op saved s =
          ⟨.ok (s.memory.version + 1), ⟨dc, persistStateWith saved dc s.file⟩, some dc⟩ := by
  unfold handleAdminRequest
  split_ifs
  · exact .inl ⟨_, _, rfl⟩
  · exact .inl ⟨_, _, rfl⟩
  · rcases s.admin_cases http op saved with ⟨err, -, h⟩ | ⟨dc, hm, hver, h⟩
    · exact .inl ⟨err.code, err.display, by rw [h]⟩
    · exact .inr ⟨dc, hm, hver, by rw [h]⟩

end Stouter
