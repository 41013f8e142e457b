import Stouter.Config.Footprint
import Stouter.Gossip.Messages

/-! # Moving a service between clusters

`stouter service move` reads a service from one cluster, adds it to another
and removes it from the first. If the removal fails, it removes what it added.
Every RPC can be refused by the daemon, fail on its way, or be applied while
its answer is lost. Seen through the instances of each group of each cluster,
the command is a sequence of updates, and the conditions under which it moves
the service or changes nothing can be read off the outcomes of the RPCs.
-/

namespace Stouter

open DynamicConfig

open Config (HealthOk)

/-- The message of an error and those of its causes, outermost first. -/
abbrev ErrorChain := List String

abbrev RpcAnswer := Except ErrorChain (Except (AdminErrCode × String) UInt64)

/-- What becomes of one admin RPC: it is not delivered, or a daemon with configuration `cfg`
handles it for a client it knows as `peerCn`, and then the answer may be lost. -/
inductive RpcDelivery
  | unsent (error : ErrorChain)
  | handled (cfg : Config) (peerCn : Option String) (saved : Bool) (lost : Option ErrorChain)

namespace RpcDelivery

def taken : RpcDelivery → Bool
  | .unsent _ => false
  | .handled cfg peerCn _ _ => adminAllowed cfg peerCn && decide (cfg.mode ≠ .subscribe)

def answered : RpcDelivery → Bool
  | .unsent _ => false
  | .handled _ _ _ lost => lost.isNone

end RpcDelivery

def AdminOp.serviceAddOf (group : String) (svc : Service) : AdminOp :=
  .serviceAdd group svc.name svc.nodeId svc.nodePort svc.domains svc.weight svc.maxConnections
    svc.protocol svc.requestTimeoutMs svc.healthPath svc.labels svc.metadata svc.localPort

/-- Send one `AdminRequest` and decode the response, with the store of the daemon. -/
def tryAdminRpc (http : HttpCrate) (op : AdminOp) (s : Store) : RpcDelivery → RpcAnswer × Store
  | .unsent error => (.error error, s)
  | .handled cfg peerCn saved lost =>
    let outcome := handleAdminRequest http cfg peerCn op saved s
    let answer := match lost, outcome.result with
      | some error, _ => .error error
      | none, .ok newVersion => .ok (.ok newVersion)
      | none, .err code message => .ok (.error (code, message))
    (answer, outcome.store)

/-- The arguments of `service move`. The daemons are given by address, `source` for `--from` and
`target` for `--to`. -/
structure MoveAction where
  group : String
  name : String
  node : Option String
  toGroup : Option String
  toNode : Option String
  source : String
  target : String

namespace MoveAction

variable (a : MoveAction) (cfg : Config)

def ownerNodeId : String := a.node.getD cfg.nodeId

def destGroup : String := a.toGroup.getD a.group

def destNode : String := a.toNode.getD (a.ownerNodeId cfg)

def moved (svc : Service) : Service := { svc with nodeId := a.destNode cfg }

end MoveAction

/-- What becomes of the RPCs of one move: whether reading the source fails, and the three admin
requests. -/
structure MoveNetwork where
  read : Option ErrorChain
  add : RpcDelivery
  remove : RpcDelivery
  rollback : RpcDelivery

/-- What a move leaves behind: its result, the lines on standard error, the answer to the rollback
if there was one, and the clusters. -/
structure MoveOutcome (κ : Type*) where
  result : Except ErrorChain String
  printed : List String
  rollback : Option RpcAnswer
  clusters : κ → Store

section Move

variable {κ : Type*} [DecidableEq κ] (http : HttpCrate) (cfg : Config) (site : String → κ)
  (a : MoveAction)

def rpcAt (op : AdminOp) (d : RpcDelivery) (c : κ) (w : κ → Store) : RpcAnswer × (κ → Store) :=
  let r := tryAdminRpc http op (w c) d
  (r.1, Function.update w c r.2)

def rollbackNotice (name : String) : RpcAnswer → List String
  | .ok (.ok _) => []
  | .ok (.error (_, msg)) =>
    [s!"rollback failed: service '{name}' may now exist in both clusters: {msg}"]
  | .error error =>
    let e := ": ".intercalate error
    [s!"rollback failed: service '{name}' may now exist in both clusters: {e}"]

/-- The removal failed: remove the service from the destination again and report `error`. -/
def rollBack (d : RpcDelivery) (error : ErrorChain) (w : κ → Store) : MoveOutcome κ :=
  let (rollback, w') := rpcAt http (.serviceRemove a.destGroup (a.destNode cfg) a.name) d
    (site a.target) w
  ⟨.error error,
    s!"remove from {a.source} failed; rolling back add on {a.target}" ::
      rollbackNotice a.name rollback,
    some rollback, w'⟩

/-- The `service move` command, where `site` gives the cluster of a daemon. -/
def serviceMove (net : MoveNetwork) (w : κ → Store) : MoveOutcome κ :=
  let owner := a.ownerNodeId cfg
  match net.read with
  | some error => ⟨.error error, [], none, w⟩
  | none =>
    match (w (site a.source)).memory.lookup a.group owner a.name with
    | none =>
      ⟨.error [s!"service '{a.name}' on node '{owner}' not found in group '{a.group}'" ++
        s!" on {a.source}"], [], none, w⟩
    | some svc =>
      match rpcAt http (.serviceAddOf a.destGroup (a.moved cfg svc)) net.add (site a.target) w with
      | (.error error, w₁) => ⟨.error error, [], none, w₁⟩
      | (.ok (.error (_, msg)), w₁) =>
        ⟨.error [s!"add to {a.target} failed: {msg}"], [], none, w₁⟩
      | (.ok (.ok addVersion), w₁) =>
        match rpcAt http (.serviceRemove a.group owner a.name) net.remove (site a.source) w₁ with
        | (.ok (.ok removeVersion), w₂) =>
          ⟨.ok (s!"Moved '{a.group}/{a.name}' from {a.source} (v{removeVersion})" ++
            s!" to {a.target} (v{addVersion})"), [], none, w₂⟩
        | (.ok (.error (_, msg)), w₂) =>
          rollBack http cfg site a net.rollback [s!"move failed: {msg}"] w₂
        | (.error error, w₂) => rollBack http cfg site a net.rollback ("move failed" :: error) w₂

/-! ## One RPC -/

def acked : RpcAnswer → Bool
  | .ok (.ok _) => true
  | _ => false

def contents (w : κ → Store) : κ × String → List Service := fun p => (w p.1).memory.servicesOf p.2

variable {d : RpcDelivery} {c : κ} {w : κ → Store} {group node name : String}
  {svc : Service}

theorem tryAdminRpc_of_not_taken (op : AdminOp) (s : Store) (h : d.taken = false) :
    acked (tryAdminRpc http op s d).1 = false ∧ (tryAdminRpc http op s d).2 = s := by
  cases d with
  | unsent error => exact ⟨rfl, rfl⟩
  | handled cfg peerCn saved lost =>
    have hr : ∃ code msg,
        handleAdminRequest http cfg peerCn op saved s = ⟨.err code msg, s, none⟩ := by
      unfold handleAdminRequest
      by_cases ha : adminAllowed cfg peerCn = true
      · have hm : cfg.mode = .subscribe := by simpa [RpcDelivery.taken, ha] using h
        rw [ha, if_neg (by simp), if_pos hm]
        exact ⟨_, _, rfl⟩
      · rw [if_pos (by simpa using ha)]
        exact ⟨_, _, rfl⟩
    obtain ⟨code, msg, hr⟩ := hr
    simp only [tryAdminRpc, hr, and_true]
    cases lost <;> rfl

theorem tryAdminRpc_of_taken (op : AdminOp) (s : Store) (h : d.taken = true) :
    acked (tryAdminRpc http op s d).1 = (d.answered && (op.mutate http s.memory).1.isOk) ∧
      (tryAdminRpc http op s d).2.memory = (op.mutate http s.memory).2 := by
  cases d with
  | unsent error => cases h
  | handled cfg peerCn saved lost =>
    simp only [RpcDelivery.taken, Bool.and_eq_true, decide_eq_true_eq] at h
    unfold tryAdminRpc handleAdminRequest Store.admin
    rcases hop : op.mutate http s.memory with ⟨result, dc⟩
    cases result with
    | ok v =>
      cases lost <;> simp [h.1, h.2, acked, RpcDelivery.answered, Except.isOk, Except.toBool]
    | error err =>
      cases lost <;> simp [h.1, h.2, acked, RpcDelivery.answered, Except.isOk, Except.toBool]

omit [DecidableEq κ] in
theorem lookup_contents (w : κ → Store) (c : κ) (group node name : String) :
    (w c).memory.lookup group node name =
      (contents w (c, group)).find? (isInstance node name) :=
  lookup_eq_find? _ _ _ _

theorem contents_update {s : Store} {services : List Service}
    (h : s.memory.servicesOf = Function.update (w c).memory.servicesOf group services) :
    contents (Function.update w c s) = Function.update (contents w) (c, group) services := by
  funext ⟨c', group'⟩
  unfold contents
  by_cases hc : c' = c
  · subst hc
    by_cases hg : group' = group
    · simp [hg, h]
    · simp [hg, h]
  · simp [hc]

theorem mutate_serviceAddOf (dc : DynamicConfig) (hs : HealthOk svc) :
    (AdminOp.serviceAddOf group svc).mutate http dc = dc.upsertService group svc := by
  unfold AdminOp.serviceAddOf AdminOp.mutate
  dsimp only
  split
  · rename_i msg hm
    obtain ⟨path, hp, hv⟩ := Option.map_eq_some_iff.mp hm
    rw [hs path hp] at hv
    cases hv
  · rfl

theorem mutate_serviceAddOf_of_not (dc : DynamicConfig) (hs : ¬ HealthOk svc) :
    ∃ err, (AdminOp.serviceAddOf group svc).mutate http dc = (.error err, dc) := by
  unfold HealthOk at hs
  push Not at hs
  obtain ⟨path, hp, hv⟩ := hs
  cases he : validateHealthPath path with
  | ok u => exact absurd he hv
  | error msg => exact ⟨.invalid msg, by simp [AdminOp.serviceAddOf, AdminOp.mutate, hp, he]⟩

theorem rpcAt_of_not_taken (op : AdminOp) (c : κ) (w : κ → Store) (hd : d.taken = false) :
    ∃ answer, rpcAt http op d c w = (answer, w) ∧ acked answer = false := by
  obtain ⟨ha, hs⟩ := tryAdminRpc_of_not_taken http op (w c) hd
  exact ⟨_, by rw [rpcAt, hs, Function.update_eq_self], ha⟩

theorem rpcAt_add (group : String) (c : κ) (w : κ → Store) (hd : d.taken = true)
    (hs : HealthOk svc) :
    ∃ answer w', rpcAt http (.serviceAddOf group svc) d c w = (answer, w') ∧
      acked answer = d.answered ∧ contents w' =
        Function.update (contents w) (c, group) (place svc (contents w (c, group))) := by
  obtain ⟨ha, hm⟩ := tryAdminRpc_of_taken http (.serviceAddOf group svc) (w c) hd
  rw [mutate_serviceAddOf http _ hs] at ha hm
  refine ⟨_, _, rfl, ?_, ?_⟩
  · rw [ha, isOk_upsertService, Bool.and_true]
  · apply contents_update
    rw [hm, servicesOf_upsertService]
    rfl

theorem rpcAt_add_of_not (group : String) (c : κ) (w : κ → Store)
    (h : ¬ (d.taken = true ∧ HealthOk svc)) :
    ∃ answer w', rpcAt http (.serviceAddOf group svc) d c w = (answer, w') ∧
      acked answer = false ∧ contents w' = contents w := by
  cases hd : d.taken with
  | false =>
    obtain ⟨answer, hr, ha⟩ := rpcAt_of_not_taken http (.serviceAddOf group svc) c w hd
    exact ⟨answer, w, hr, ha, rfl⟩
  | true =>
    obtain ⟨ha, hm⟩ := tryAdminRpc_of_taken http (.serviceAddOf group svc) (w c) hd
    obtain ⟨err, he⟩ := mutate_serviceAddOf_of_not http (w c).memory fun hs => h ⟨hd, hs⟩
    rw [he] at ha hm
    refine ⟨_, _, rfl, ?_, ?_⟩
    · rw [ha]
      exact Bool.and_false _
    · funext ⟨c', group'⟩
      by_cases hc : c' = c
      · subst hc
        simp [contents, hm]
      · simp [contents, hc]

theorem rpcAt_remove (group node name : String) (c : κ) (w : κ → Store) (hd : d.taken = true) :
    ∃ answer w', rpcAt http (.serviceRemove group node name) d c w = (answer, w') ∧
      acked answer =
        (d.answered && ((contents w (c, group)).find? (isInstance node name)).isSome) ∧
      contents w' =
        Function.update (contents w) (c, group) (drop node name (contents w (c, group))) := by
  obtain ⟨ha, hm⟩ := tryAdminRpc_of_taken http (.serviceRemove group node name) (w c) hd
  refine ⟨_, _, rfl, ?_, ?_⟩
  · rw [ha, AdminOp.mutate, isOk_removeService, lookup_contents]
  · apply contents_update
    rw [hm, AdminOp.mutate, servicesOf_removeService]
    rfl

/-! ## The contents of the clusters along a move -/

section Contents

variable {C : κ × String → List Service} {src dst : κ × String}

theorem update_place_eq_self_iff :
    Function.update C dst (place svc (C dst)) = C ↔
      (C dst).find? (isInstance svc.nodeId svc.name) = some svc := by
  constructor
  · intro h
    have hd : place svc (C dst) = C dst := by simpa using congrFun h dst
    rw [← hd, find?_place_self]
  · intro h
    rw [place_eq_self h, Function.update_eq_self]

/-- Adding the service and dropping it again changes nothing exactly if its place was free. -/
theorem update_drop_place_eq_self_iff (C : κ × String → List Service) (dst : κ × String)
    (svc : Service) :
    Function.update C dst (drop svc.nodeId svc.name (place svc (C dst))) = C ↔
      (C dst).find? (isInstance svc.nodeId svc.name) = none := by
  constructor
  · intro h
    have hd : drop svc.nodeId svc.name (place svc (C dst)) = C dst := by simpa using congrFun h dst
    rw [← hd, find?_drop_self]
  · intro h
    rw [drop_place h, Function.update_eq_self]

theorem isSome_update_place (h : ((C src).find? (isInstance node name)).isSome = true) :
    ((Function.update C dst (place svc (C dst)) src).find? (isInstance node name)).isSome =
      true := by
  by_cases he : src = dst
  · subst he
    rw [Function.update_self]
    exact isSome_find?_place svc h
  · rwa [Function.update_of_ne he]

theorem find?_update_drop_iff (src : κ × String) (node name : String)
    (h : (C dst).find? (isInstance svc.nodeId svc.name) = some svc) :
    (Function.update C src (drop node name (C src)) dst).find? (isInstance svc.nodeId svc.name) =
      some svc ↔ ¬ (dst = src ∧ svc.nodeId = node ∧ svc.name = name) := by
  by_cases he : dst = src
  · subst he
    rw [Function.update_self]
    by_cases hk : svc.nodeId = node ∧ svc.name = name
    · rw [← hk.1, ← hk.2, find?_drop_self]
      simp
    · rw [find?_drop_of_ne hk, h]
      simp [hk]
  · rw [Function.update_of_ne he, h]
    simp [he]

theorem find?_update_drop_eq_none {node' name' : String}
    (h : (C src).find? (isInstance node' name') = none) :
    (Function.update C dst (drop node name (C dst)) src).find? (isInstance node' name') = none := by
  by_cases he : src = dst
  · subst he
    rw [Function.update_self]
    exact find?_drop_eq_none node name h
  · rwa [Function.update_of_ne he]

end Contents

/-! ## All or nothing -/

/-- A move that reports success has moved the service, and one that reports failure has changed no
entry of any cluster. -/
def AllOrNothing (w : κ → Store) (out : MoveOutcome κ) : Prop :=
  (out.result.isOk = true →
    ∃ svc, (w (site a.source)).memory.lookup a.group (a.ownerNodeId cfg) a.name = some svc ∧
      (out.clusters (site a.target)).memory.lookup a.destGroup (a.destNode cfg) a.name =
        some (a.moved cfg svc) ∧
      (out.clusters (site a.source)).memory.lookup a.group (a.ownerNodeId cfg) a.name = none) ∧
  (out.result.isOk = false → contents out.clusters = contents w)

def RollbackTaken (net : MoveNetwork) (w : κ → Store) : Prop :=
  (serviceMove http cfg site a net w).rollback.isSome = true → net.rollback.taken = true

def MovesInPlace : Prop :=
  site a.target = site a.source ∧ a.destGroup = a.group ∧ a.destNode cfg = a.ownerNodeId cfg

/-- The outcomes of the RPCs and the entry `there` of the destination under which a move of `svc`
is all or nothing: the addition is not applied, its answer is lost and it changes nothing, the
service is added and removed, or it is added to a free place and not removed. -/
def MovesSafely (net : MoveNetwork) (svc : Service) (there : Option Service) : Prop :=
  ¬ (net.add.taken = true ∧ HealthOk (a.moved cfg svc)) ∨
    net.add.answered = false ∧ there = some (a.moved cfg svc) ∨
    net.add.answered = true ∧ net.remove.taken = true ∧ net.remove.answered = true ∧
      ¬ MovesInPlace cfg site a ∨
    net.add.answered = true ∧ net.remove.taken = false ∧ there = none

variable {net : MoveNetwork} {w₁ w₂ : κ → Store} {answer answer' : RpcAnswer}

theorem acked_iff : acked answer = true ↔ ∃ v, answer = .ok (.ok v) := by
  rcases answer with _ | _ | v <;> simp [acked]

theorem serviceMove_of_not_added (hread : net.read = none)
    (hsvc : (w (site a.source)).memory.lookup a.group (a.ownerNodeId cfg) a.name = some svc)
    (hadd : rpcAt http (.serviceAddOf a.destGroup (a.moved cfg svc)) net.add (site a.target) w =
      (answer, w₁)) (hack : acked answer = false) :
    ∃ error, serviceMove http cfg site a net w = ⟨.error error, [], none, w₁⟩ := by
  simp only [serviceMove, hread, hsvc, hadd]
  rcases answer with error | ⟨code, msg⟩ | v
  · exact ⟨_, rfl⟩
  · exact ⟨_, rfl⟩
  · cases hack

theorem serviceMove_of_removed (hread : net.read = none)
    (hsvc : (w (site a.source)).memory.lookup a.group (a.ownerNodeId cfg) a.name = some svc)
    (hadd : rpcAt http (.serviceAddOf a.destGroup (a.moved cfg svc)) net.add (site a.target) w =
      (answer, w₁)) (hack : acked answer = true)
    (hrem : rpcAt http (.serviceRemove a.group (a.ownerNodeId cfg) a.name) net.remove
      (site a.source) w₁ = (answer', w₂)) (hack' : acked answer' = true) :
    ∃ line, serviceMove http cfg site a net w = ⟨.ok line, [], none, w₂⟩ := by
  obtain ⟨v, rfl⟩ := acked_iff.mp hack
  obtain ⟨v', rfl⟩ := acked_iff.mp hack'
  simp only [serviceMove, hread, hsvc, hadd, hrem]
  exact ⟨_, rfl⟩

theorem serviceMove_of_not_removed (hread : net.read = none)
    (hsvc : (w (site a.source)).memory.lookup a.group (a.ownerNodeId cfg) a.name = some svc)
    (hadd : rpcAt http (.serviceAddOf a.destGroup (a.moved cfg svc)) net.add (site a.target) w =
      (answer, w₁)) (hack : acked answer = true)
    (hrem : rpcAt http (.serviceRemove a.group (a.ownerNodeId cfg) a.name) net.remove
      (site a.source) w₁ = (answer', w₂)) (hack' : acked answer' = false) :
    ∃ error, serviceMove http cfg site a net w =
      rollBack http cfg site a net.rollback error w₂ := by
  obtain ⟨v, rfl⟩ := acked_iff.mp hack
  simp only [serviceMove, hread, hsvc, hadd, hrem]
  rcases answer' with error | ⟨code, msg⟩ | v'
  · exact ⟨_, rfl⟩
  · exact ⟨_, rfl⟩
  · cases hack'

omit [DecidableEq κ] in
theorem allOrNothing_error_iff {error : ErrorChain} {printed : List String}
    {rollback : Option RpcAnswer} :
    AllOrNothing cfg site a w ⟨.error error, printed, rollback, w₁⟩ ↔ contents w₁ = contents w := by
  simp [AllOrNothing, Except.isOk, Except.toBool]

section Found

variable (hread : net.read = none)
  (hsvc : (w (site a.source)).memory.lookup a.group (a.ownerNodeId cfg) a.name = some svc)

include hsvc

omit [DecidableEq κ] in
theorem moved_name : (a.moved cfg svc).name = a.name := by
  rw [lookup_contents] at hsvc
  exact congrArg Prod.snd (isInstance_iff.mp (List.find?_some hsvc))

omit [DecidableEq κ] in
theorem allOrNothing_ok_iff {line : String} {printed : List String}
    {rollback : Option RpcAnswer} :
    AllOrNothing cfg site a w ⟨.ok line, printed, rollback, w₁⟩ ↔
      (w₁ (site a.target)).memory.lookup a.destGroup (a.destNode cfg) a.name =
        some (a.moved cfg svc) ∧
      (w₁ (site a.source)).memory.lookup a.group (a.ownerNodeId cfg) a.name = none := by
  simp [AllOrNothing, Except.isOk, Except.toBool, hsvc]

include hread

theorem allOrNothing_of_not_applied
    (h : ¬ (net.add.taken = true ∧ HealthOk (a.moved cfg svc))) :
    AllOrNothing cfg site a w (serviceMove http cfg site a net w) := by
  obtain ⟨answer, w₁, hadd, hack, hw₁⟩ := rpcAt_add_of_not http a.destGroup (site a.target) w h
  obtain ⟨error, hout⟩ := serviceMove_of_not_added http cfg site a hread hsvc hadd hack
  rw [hout, allOrNothing_error_iff]
  exact hw₁

variable (ht : net.add.taken = true) (hs : HealthOk (a.moved cfg svc))

include ht hs

theorem allOrNothing_unanswered_iff (hl : net.add.answered = false) :
    AllOrNothing cfg site a w (serviceMove http cfg site a net w) ↔
      (w (site a.target)).memory.lookup a.destGroup (a.destNode cfg) a.name =
        some (a.moved cfg svc) := by
  obtain ⟨answer, w₁, hadd, hack, hw₁⟩ := rpcAt_add http a.destGroup (site a.target) w ht hs
  rw [hl] at hack
  obtain ⟨error, hout⟩ := serviceMove_of_not_added http cfg site a hread hsvc hadd hack
  rw [hout, allOrNothing_error_iff, hw₁, update_place_eq_self_iff, moved_name cfg site a hsvc,
    lookup_contents]
  rfl

variable (hl : net.add.answered = true)

include hl

omit hread in
/-- Once the addition is acknowledged, the destination has the service and the source still has
it. -/
theorem exists_added :
    ∃ answer w₁, rpcAt http (.serviceAddOf a.destGroup (a.moved cfg svc)) net.add (site a.target)
        w = (answer, w₁) ∧ acked answer = true ∧
      contents w₁ = Function.update (contents w) (site a.target, a.destGroup)
        (place (a.moved cfg svc) (contents w (site a.target, a.destGroup))) ∧
      ((contents w₁ (site a.source, a.group)).find?
        (isInstance (a.ownerNodeId cfg) a.name)).isSome = true := by
  obtain ⟨answer, w₁, hadd, hack, hw₁⟩ := rpcAt_add http a.destGroup (site a.target) w ht hs
  refine ⟨answer, w₁, hadd, hack.trans hl, hw₁, ?_⟩
  rw [hw₁]
  apply isSome_update_place
  rw [lookup_contents] at hsvc
  exact Option.isSome_of_eq_some hsvc

theorem allOrNothing_removed_iff (ht' : net.remove.taken = true)
    (hl' : net.remove.answered = true) :
    AllOrNothing cfg site a w (serviceMove http cfg site a net w) ↔
      ¬ MovesInPlace cfg site a := by
  obtain ⟨answer, w₁, hadd, hack, hw₁, hsome⟩ := exists_added http cfg site a hsvc ht hs hl
  obtain ⟨answer', w₂, hrem, hack', hw₂⟩ :=
    rpcAt_remove http a.group (a.ownerNodeId cfg) a.name (site a.source) w₁ ht'
  rw [hl', hsome] at hack'
  obtain ⟨line, hout⟩ := serviceMove_of_removed http cfg site a hread hsvc hadd hack hrem hack'
  -- The destination holds the service before the removal.
  have hthere : (contents w₁ (site a.target, a.destGroup)).find?
      (isInstance (a.moved cfg svc).nodeId (a.moved cfg svc).name) = some (a.moved cfg svc) := by
    rw [hw₁, Function.update_self, find?_place_self]
  have hgone : (contents w₂ (site a.source, a.group)).find?
      (isInstance (a.ownerNodeId cfg) a.name) = none := by
    rw [hw₂, Function.update_self, find?_drop_self]
  have hkept := find?_update_drop_iff (site a.source, a.group) (a.ownerNodeId cfg) a.name hthere
  rw [← hw₂, moved_name cfg site a hsvc] at hkept
  rw [hout, allOrNothing_ok_iff cfg site a hsvc, lookup_contents, lookup_contents,
    and_iff_left hgone]
  refine hkept.trans (not_congr ?_)
  rw [Prod.mk.injEq, and_iff_left rfl, and_assoc]
  rfl

variable (hroll : RollbackTaken http cfg site a net w)

include hroll

omit hread hsvc ht hs hl in
theorem exists_rolledBack {error : ErrorChain}
    (hout : serviceMove http cfg site a net w = rollBack http cfg site a net.rollback error w₂) :
    ∃ printed rollback w₃, serviceMove http cfg site a net w =
        ⟨.error error, printed, rollback, w₃⟩ ∧
      contents w₃ = Function.update (contents w₂) (site a.target, a.destGroup)
        (drop (a.destNode cfg) a.name (contents w₂ (site a.target, a.destGroup))) := by
  have ht' := hroll (by rw [hout]; rfl)
  obtain ⟨answer, w₃, hr, -, hw₃⟩ :=
    rpcAt_remove http a.destGroup (a.destNode cfg) a.name (site a.target) w₂ ht'
  rw [hout, rollBack, hr]
  exact ⟨_, _, w₃, rfl, hw₃⟩

/-- The removal is applied and its answer is lost: the rollback takes the service from the
destination too. -/
theorem not_allOrNothing_of_unanswered (ht' : net.remove.taken = true)
    (hl' : net.remove.answered = false) :
    ¬ AllOrNothing cfg site a w (serviceMove http cfg site a net w) := by
  obtain ⟨answer, w₁, hadd, hack, hw₁, hsome⟩ := exists_added http cfg site a hsvc ht hs hl
  obtain ⟨answer', w₂, hrem, hack', hw₂⟩ :=
    rpcAt_remove http a.group (a.ownerNodeId cfg) a.name (site a.source) w₁ ht'
  rw [hl', Bool.false_and] at hack'
  obtain ⟨error, hback⟩ :=
    serviceMove_of_not_removed http cfg site a hread hsvc hadd hack hrem hack'
  obtain ⟨printed, rollback, w₃, hout, hw₃⟩ := exists_rolledBack http cfg site a hroll hback
  have hgone : (contents w₃ (site a.source, a.group)).find?
      (isInstance (a.ownerNodeId cfg) a.name) = none := by
    rw [hw₃]
    apply find?_update_drop_eq_none
    rw [hw₂, Function.update_self, find?_drop_self]
  rw [hout, allOrNothing_error_iff]
  intro hsame
  rw [hsame, ← lookup_contents, hsvc] at hgone
  cases hgone

theorem allOrNothing_rolledBack_iff (ht' : net.remove.taken = false) :
    AllOrNothing cfg site a w (serviceMove http cfg site a net w) ↔
      (w (site a.target)).memory.lookup a.destGroup (a.destNode cfg) a.name = none := by
  obtain ⟨answer, w₁, hadd, hack, hw₁, -⟩ := exists_added http cfg site a hsvc ht hs hl
  obtain ⟨answer', hrem, hack'⟩ := rpcAt_of_not_taken http
    (.serviceRemove a.group (a.ownerNodeId cfg) a.name) (site a.source) w₁ ht'
  obtain ⟨error, hback⟩ :=
    serviceMove_of_not_removed http cfg site a hread hsvc hadd hack hrem hack'
  obtain ⟨printed, rollback, w₃, hout, hw₃⟩ := exists_rolledBack http cfg site a hroll hback
  have hundo := update_drop_place_eq_self_iff (contents w) (site a.target, a.destGroup)
    (a.moved cfg svc)
  rw [moved_name cfg site a hsvc] at hundo
  rw [hout, allOrNothing_error_iff, hw₃, hw₁, Function.update_self, Function.update_idem,
    lookup_contents]
  exact hundo

end Found

/-- When a rollback that is issued is taken, a move is all or nothing exactly if the source cannot
be read, does not have the service, or the service moves safely. -/
theorem all_or_nothing_iff (net : MoveNetwork) (w : κ → Store)
    (hroll : RollbackTaken http cfg site a net w) :
    AllOrNothing cfg site a w (serviceMove http cfg site a net w) ↔
      (net.read = none → ∀ svc,
        (w (site a.source)).memory.lookup a.group (a.ownerNodeId cfg) a.name = some svc →
        MovesSafely cfg site a net svc
          ((w (site a.target)).memory.lookup a.destGroup (a.destNode cfg) a.name)) := by
  cases hread : net.read with
  | some error => simp [serviceMove, hread, allOrNothing_error_iff]
  | none =>
    cases hsvc : (w (site a.source)).memory.lookup a.group (a.ownerNodeId cfg) a.name with
    | none => simp [serviceMove, hread, hsvc, allOrNothing_error_iff]
    | some svc =>
      simp only [forall_const, Option.some.injEq, forall_eq']
      unfold MovesSafely
      by_cases hadd : net.add.taken = true ∧ HealthOk (a.moved cfg svc)
      · obtain ⟨ht, hs⟩ := hadd
        cases hl : net.add.answered with
        | false =>
          simpa [ht, hs] using allOrNothing_unanswered_iff http cfg site a hread hsvc ht hs hl
        | true =>
          cases ht' : net.remove.taken with
          | false =>
            simpa [ht, hs] using
              allOrNothing_rolledBack_iff http cfg site a hread hsvc ht hs hl hroll ht'
          | true =>
            cases hl' : net.remove.answered with
            | false =>
              simpa [ht, hs] using
                not_allOrNothing_of_unanswered http cfg site a hread hsvc ht hs hl hroll ht' hl'
            | true =>
              simpa [ht, hs] using
                allOrNothing_removed_iff http cfg site a hread hsvc ht hs hl ht' hl'
      · exact iff_of_true (allOrNothing_of_not_applied http cfg site a hread hsvc hadd) (.inl hadd)

end Move

def apiOn (port : UInt16) : Service :=
  ⟨"api", "n1", port, [], 1, none, .tcp, none, none, ∅, ∅, none⟩

def webHolding (services : List Service) : Store := ⟨⟨1, [⟨"web", services⟩], []⟩, none⟩

/-- Move `api` from the daemon in the east to the one in the west. -/
def moveApi : MoveAction := ⟨"web", "api", some "n1", none, none, "east:8080", "west:8080"⟩

def isWest (addr : String) : Bool := addr == "west:8080"

/-- The daemons in the west take requests of `ops`, those in the east do not. -/
def eastRefuses : MoveNetwork where
  read := none
  add := .handled { Config.default with adminCns := ["ops"] } (some "ops") true none
  remove := .handled Config.default (some "ops") true none
  rollback := .handled { Config.default with adminCns := ["ops"] } (some "ops") true none

def apiInEast (west : Bool) : Store := webHolding (if west then [] else [apiOn 3000])

theorem all_or_nothing_eastRefuses :
    RollbackTaken plainHttp Config.default isWest moveApi eastRefuses apiInEast ∧
      AllOrNothing Config.default isWest moveApi apiInEast
        (serviceMove plainHttp Config.default isWest moveApi eastRefuses apiInEast) := by
  have hroll : RollbackTaken plainHttp Config.default isWest moveApi eastRefuses apiInEast :=
    fun _ => by decide
  refine ⟨hroll, (all_or_nothing_iff _ _ _ _ _ _ hroll).mpr fun _ svc _ => ?_⟩
  exact .inr (.inr (.inr ⟨by decide, by decide, by decide⟩))

def apiInBoth (west : Bool) : Store := webHolding [apiOn (if west then 4000 else 3000)]

/-- The addition replaces the entry of the west and the rollback, applied as version 3, removes
it. -/
theorem overwritten_lost :
    (serviceMove plainHttp Config.default isWest moveApi eastRefuses apiInBoth).rollback =
        some (.ok (.ok 3)) ∧
      ¬ AllOrNothing Config.default isWest moveApi apiInBoth
        (serviceMove plainHttp Config.default isWest moveApi eastRefuses apiInBoth) := by
  have hroll : RollbackTaken plainHttp Config.default isWest moveApi eastRefuses apiInBoth :=
    fun _ => by decide
  have hsvc : (apiInBoth (isWest moveApi.source)).memory.lookup moveApi.group
      (moveApi.ownerNodeId Config.default) moveApi.name = some (apiOn 3000) := by decide
  have hhealth : HealthOk (moveApi.moved Config.default (apiOn 3000)) := fun _ h => by cases h
  refine ⟨by rfl, fun h => ?_⟩
  rw [allOrNothing_rolledBack_iff _ _ _ _ rfl hsvc (by decide) hhealth (by decide) hroll
    (by decide)] at h
  exact absurd h (by decide)

end Stouter
