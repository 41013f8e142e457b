import Stouter.Config.Basic
import Stouter.Maps.Basic

/-! # The membership table

A daemon's table of known nodes, and the operations that write it: merging
the node list of a `Sync`, applying `NodeJoin` and `NodeLeave`, and accepting
a reverse registration. `snapshotNodes` is the list a daemon sends.
-/

namespace Stouter

/-- A point in time, in nanoseconds. -/
abbrev Instant := ℕ

/-- A node's self-reported health for the services it hosts. -/
structure ServiceHealth where
  version : UInt64
  unhealthy : List String
  deriving DecidableEq, Repr

namespace ServiceHealth

def default : ServiceHealth := ⟨0, []⟩

def isUnhealthy (h : ServiceHealth) (serviceName : String) : Bool :=
  h.unhealthy.any (· == serviceName)

end ServiceHealth

/-- Identity and address of a known peer node. -/
structure NodeInfo where
  id : String
  addr : String
  relay : Option String
  lastSeen : Option Instant
  health : ServiceHealth
  deriving DecidableEq, Repr

abbrev NodeMap := HashMap String NodeInfo

/-- Rejects values that look like socket addresses. -/
def isValidNodeId (id : String) : Bool := !id.isEmpty && !id.toList.contains ':'

/-- Replace `0.0.0.0` in an address by the host of the connection it arrived on. -/
def fixUnroutableAddr (connectedAddr addr : String) : String :=
  if addr.toList.take 8 = "0.0.0.0:".toList then
    let port := addr.toList.drop 8
    -- `rsplit_once(':')`: the host is what stands before the last colon.
    match connectedAddr.toList.reverse.dropWhile (· ≠ ':') with
    | [] => addr
    | _ :: host => String.ofList (host.reverse ++ ':' :: port)
  else
    addr

def fixUnroutableAddrs (connectedAddr : String) (nodes : List NodeInfo) : List NodeInfo :=
  nodes.map fun node => { node with addr := fixUnroutableAddr connectedAddr node.addr }

def mergeHealth (existing incoming : NodeInfo) : NodeInfo :=
  if incoming.health.version ≤ existing.health.version then existing
  else { existing with health := incoming.health }

/-- The entry of a known node after it is merged with an incoming copy. -/
def mergeEntry (existing node : NodeInfo) : NodeInfo :=
  let existing := mergeHealth existing node
  let hasAddr := !node.addr.isEmpty
  let existing := { existing with addr := node.addr }
  if existing.relay ≠ node.relay ∧ (node.relay.isSome ∨ hasAddr) then
    { existing with relay := node.relay }
  else
    existing

/-- Whether merging the copy counts as a change that is worth persisting. -/
def entryChanges (existing node : NodeInfo) : Bool :=
  existing.addr ≠ node.addr ||
    (existing.relay ≠ node.relay && (node.relay.isSome || !node.addr.isEmpty))

/-- One iteration of the loop over the node list in `merge_sync`. -/
def mergeNode (ownId : String) (now : Instant) (acc : NodeMap × Bool) (node : NodeInfo) :
    NodeMap × Bool :=
  if !isValidNodeId node.id then acc
  else
    -- A daemon is the only authority on its own health.
    let node := if node.id = ownId then { node with health := .default } else node
    match acc.1.lookup node.id with
    | some existing =>
      (HashMap.modify node.id (mergeEntry · node) acc.1, acc.2 || entryChanges existing node)
    | none => (acc.1.insert node.id { node with lastSeen := some now }, true)

/-- The liveness refresh of the peer reached at `contactAddr`. -/
def markSeen (contactAddr : Option String) (now : Instant) (kn : NodeMap) : NodeMap :=
  match contactAddr with
  | none => kn
  | some addr => HashMap.mapValues
      (fun _ node => if !node.addr.isEmpty && node.addr == addr then
        { node with lastSeen := some now } else node) kn

/-- The node half of `merge_sync`, with the flag that makes it persist. -/
def mergeNodes (ownId : String) (nodes : List NodeInfo) (contactAddr : Option String)
    (now : Instant) (kn : NodeMap) : NodeMap × Bool :=
  let merged := nodes.foldl (mergeNode ownId now) (kn, false)
  (markSeen contactAddr now merged.1, merged.2)

def applyNodeJoin (id addr : String) (now : Instant) (kn : NodeMap) : NodeMap × Bool :=
  if !isValidNodeId id then (kn, false)
  else
    match kn.lookup id with
    | some existing => (HashMap.modify id ({ · with addr }) kn, existing.addr ≠ addr)
    | none => (kn.insert id ⟨id, addr, none, some now, .default⟩, true)

def applyNodeLeave (id : String) (kn : NodeMap) : NodeMap := kn.erase id

/-- The table update of `handle_reverse_registration`. -/
def registerReverse (id ourAddr : String) (now : Instant) (kn : NodeMap) : NodeMap :=
  match kn.lookup id with
  | some _ => HashMap.modify id ({ · with relay := some ourAddr, lastSeen := some now }) kn
  | none => kn.insert id ⟨id, "", some ourAddr, some now, .default⟩

/-- Known nodes plus an up-to-date entry for the daemon itself. -/
def snapshotNodes (cfg : Config) (localHealth : ServiceHealth) (kn : NodeMap) : List NodeInfo :=
  let nodes := HashMap.values kn
  if cfg.nodeId.isEmpty then nodes
  else
    let selfAddr := if cfg.outboundOnly then "" else cfg.peerAddr
    match nodes.find? (·.id == cfg.nodeId) with
    | some _ => nodes.updateFirst (·.id == cfg.nodeId)
        ({ · with addr := selfAddr, health := localHealth })
    | none => nodes ++ [⟨cfg.nodeId, selfAddr, none, none, localHealth⟩]

/-! ## Properties of every entry -/

/-- The entry of a `Sync` as its receiver takes it: nothing about the receiver's own health. -/
def received (ownId : String) (node : NodeInfo) : NodeInfo :=
  if node.id = ownId then { node with health := .default } else node

@[simp] theorem received_id (ownId : String) (node : NodeInfo) :
    (received ownId node).id = node.id := by
  unfold received
  split_ifs <;> rfl

theorem mergeNode_eq (ownId : String) (now : Instant) (acc : NodeMap × Bool) (node : NodeInfo) :
    mergeNode ownId now acc node =
      if !isValidNodeId node.id then acc
      else
        match acc.1.lookup node.id with
        | some existing => (HashMap.modify node.id (mergeEntry · (received ownId node)) acc.1,
            acc.2 || entryChanges existing (received ownId node))
        | none =>
          (acc.1.insert node.id { received ownId node with lastSeen := some now }, true) := by
  unfold mergeNode received
  dsimp only
  by_cases h : node.id = ownId
  · rw [if_pos h]
  · rw [if_neg h]

theorem lookup_mergeNode (ownId : String) (now : Instant) (acc : NodeMap × Bool) (node : NodeInfo)
    (id : String) :
    (mergeNode ownId now acc node).1.lookup id =
      if isValidNodeId node.id ∧ node.id = id then
        some (((acc.1.lookup id).map (mergeEntry · (received ownId node))).getD
          { received ownId node with lastSeen := some now })
      else acc.1.lookup id := by
  rw [mergeNode_eq]
  by_cases hv : isValidNodeId node.id
  · rw [if_neg (by simp [hv])]
    by_cases hid : node.id = id
    · subst hid
      rw [if_pos ⟨hv, rfl⟩]
      cases hl : acc.1.lookup node.id with
      | some existing =>
        dsimp only
        rw [HashMap.lookup_modify, if_pos rfl, hl]
        rfl
      | none =>
        dsimp only
        rw [AList.lookup_insert]
        rfl
    · rw [if_neg fun h => hid h.2]
      cases acc.1.lookup node.id with
      | some existing =>
        dsimp only
        rw [HashMap.lookup_modify, if_neg (Ne.symm hid)]
      | none =>
        dsimp only
        rw [AList.lookup_insert_ne (Ne.symm hid)]
  · simp [hv]

theorem lookup_applyNodeJoin (joined addr : String) (now : Instant) (kn : NodeMap) (id : String) :
    (applyNodeJoin joined addr now kn).1.lookup id =
      if isValidNodeId joined ∧ id = joined then
        some (((kn.lookup joined).map ({ · with addr })).getD
          ⟨joined, addr, none, some now, .default⟩)
      else kn.lookup id := by
  unfold applyNodeJoin
  by_cases hv : isValidNodeId joined
  · rw [if_neg (by simp [hv])]
    simp only [hv, true_and]
    cases hl : kn.lookup joined with
    | some node =>
      dsimp only
      rw [HashMap.lookup_modify, hl]
      rfl
    | none => exact HashMap.lookup_insert_eq_ite kn joined id _
  · simp [hv]

theorem lookup_registerReverse (registered ourAddr : String) (now : Instant) (kn : NodeMap)
    (id : String) :
    (registerReverse registered ourAddr now kn).lookup id =
      if id = registered then
        some (((kn.lookup registered).map
          ({ · with relay := some ourAddr, lastSeen := some now })).getD
            ⟨registered, "", some ourAddr, some now, .default⟩)
      else kn.lookup id := by
  unfold registerReverse
  cases hl : kn.lookup registered with
  | some node =>
    dsimp only
    rw [HashMap.lookup_modify, hl]
    rfl
  | none => exact HashMap.lookup_insert_eq_ite kn registered id _

section Entries

variable {Q : String → NodeInfo → Prop} {kn : NodeMap} {ownId : String} {now : Instant}

theorem all_mergeNode {acc : NodeMap × Bool} {node : NodeInfo} (h : HashMap.All Q acc.1)
    (hnew : isValidNodeId node.id → Q node.id { received ownId node with lastSeen := some now })
    (hmerge : isValidNodeId node.id → ∀ existing, Q node.id existing →
      Q node.id (mergeEntry existing (received ownId node))) :
    HashMap.All Q (mergeNode ownId now acc node).1 := by
  rw [mergeNode_eq]
  split_ifs with hv
  · exact h
  · have hvalid : isValidNodeId node.id := by simpa using hv
    split
    · exact h.modify (hmerge hvalid)
    · exact h.insert (hnew hvalid)

theorem all_mergeNodes {nodes : List NodeInfo} {contactAddr : Option String}
    (h : HashMap.All Q kn)
    (hnew : ∀ node ∈ nodes, isValidNodeId node.id →
      Q node.id { received ownId node with lastSeen := some now })
    (hmerge : ∀ node ∈ nodes, isValidNodeId node.id → ∀ existing, Q node.id existing →
      Q node.id (mergeEntry existing (received ownId node)))
    (hseen : ∀ id node, Q id node → Q id { node with lastSeen := some now }) :
    HashMap.All Q (mergeNodes ownId nodes contactAddr now kn).1 := by
  have hfold : ∀ acc : NodeMap × Bool, HashMap.All Q acc.1 →
      HashMap.All Q (nodes.foldl (mergeNode ownId now) acc).1 := by
    induction nodes with
    | nil => exact fun _ h => h
    | cons n nodes ih =>
      intro acc hacc
      apply ih
      · exact fun node hn => hnew node (List.mem_cons_of_mem _ hn)
      · exact fun node hn => hmerge node (List.mem_cons_of_mem _ hn)
      · exact all_mergeNode hacc (hnew n List.mem_cons_self) (hmerge n List.mem_cons_self)
  unfold mergeNodes
  cases contactAddr with
  | none => exact hfold (kn, false) h
  | some addr =>
    apply (hfold (kn, false) h).mapValues
    intro id node hq
    split_ifs
    · exact hseen id node hq
    · exact hq

theorem all_applyNodeJoin {joined addr : String} (h : HashMap.All Q kn)
    (hnew : isValidNodeId joined → kn.lookup joined = none →
      Q joined ⟨joined, addr, none, some now, .default⟩)
    (hjoin : isValidNodeId joined → ∀ node, Q joined node → Q joined { node with addr }) :
    HashMap.All Q (applyNodeJoin joined addr now kn).1 := by
  unfold applyNodeJoin
  split_ifs with hv
  · exact h
  · have hvalid : isValidNodeId joined := by simpa using hv
    split
    · exact h.modify (hjoin hvalid)
    · rename_i hnone
      exact h.insert (hnew hvalid hnone)

theorem all_registerReverse {registered ourAddr : String} (h : HashMap.All Q kn)
    (hnew : kn.lookup registered = none →
      Q registered ⟨registered, "", some ourAddr, some now, .default⟩)
    (hreg : ∀ node, Q registered node →
      Q registered { node with relay := some ourAddr, lastSeen := some now }) :
    HashMap.All Q (registerReverse registered ourAddr now kn) := by
  unfold registerReverse
  split
  · exact h.modify hreg
  · rename_i hnone
    exact h.insert (hnew hnone)

end Entries

@[simp] theorem mergeEntry_id (existing node : NodeInfo) :
    (mergeEntry existing node).id = existing.id := by
  unfold mergeEntry mergeHealth
  dsimp only
  split_ifs <;> rfl

@[simp] theorem mergeEntry_addr (existing node : NodeInfo) :
    (mergeEntry existing node).addr = node.addr := by
  unfold mergeEntry
  dsimp only
  split_ifs <;> rfl

@[simp] theorem mergeEntry_lastSeen (existing node : NodeInfo) :
    (mergeEntry existing node).lastSeen = existing.lastSeen := by
  unfold mergeEntry mergeHealth
  dsimp only
  split_ifs <;> rfl

theorem mergeEntry_health (existing node : NodeInfo) :
    (mergeEntry existing node).health =
      if node.health.version ≤ existing.health.version then existing.health else node.health := by
  unfold mergeEntry mergeHealth
  dsimp only
  split_ifs <;> rfl

/-- The relay of a copy replaces the known one, unless the copy has neither relay nor address. -/
theorem mergeEntry_relay (existing node : NodeInfo) :
    (mergeEntry existing node).relay =
      if node.relay.isSome ∨ node.addr ≠ "" then node.relay else existing.relay := by
  have hr : (mergeHealth existing node).relay = existing.relay := by
    unfold mergeHealth
    split_ifs <;> rfl
  unfold mergeEntry
  dsimp only
  rw [hr]
  by_cases hc : node.relay.isSome ∨ node.addr ≠ ""
  · by_cases he : existing.relay = node.relay
    · simp [he, hc]
    · simp [he, hc]
  · simp [hc]

/-! ## Who is in the table -/

section Members

variable {kn : NodeMap} {id ownId : String} {node : NodeInfo} {now : Instant}

def Keyed (kn : NodeMap) : Prop := ∀ id node, kn.lookup id = some node → node.id = id

theorem Keyed.erase (h : Keyed kn) : Keyed (kn.erase id) := HashMap.All.erase h

theorem mem_guarded {joined : String} {kn' : NodeMap} (h : id ∈ kn' ↔ id = joined ∨ id ∈ kn) :
    (id ∈ if !isValidNodeId joined then kn else kn') ↔
      id ∈ kn ∨ isValidNodeId id ∧ joined = id := by
  cases hv : isValidNodeId joined
  · simp only [Bool.not_false, if_true]
    refine ⟨.inl, ?_⟩
    rintro (hm | ⟨hi, rfl⟩)
    · exact hm
    · simp [hv] at hi
  · simp only [Bool.not_true, Bool.false_eq_true, if_false, h]
    constructor
    · rintro (rfl | hm)
      · exact .inr ⟨hv, rfl⟩
      · exact .inl hm
    · rintro (hm | ⟨_, rfl⟩)
      · exact .inr hm
      · exact .inl rfl

theorem mem_mergeNode {acc : NodeMap × Bool} :
    id ∈ (mergeNode ownId now acc node).1 ↔ id ∈ acc.1 ∨ isValidNodeId id ∧ node.id = id := by
  rw [mergeNode_eq, apply_ite Prod.fst]
  apply mem_guarded
  split
  · rename_i he
    exact HashMap.mem_modify_of_lookup he
  · exact AList.mem_insert _

theorem mem_mergeNodes {nodes : List NodeInfo} {contactAddr : Option String} :
    id ∈ (mergeNodes ownId nodes contactAddr now kn).1 ↔
      id ∈ kn ∨ isValidNodeId id ∧ ∃ node ∈ nodes, node.id = id := by
  have hfold : ∀ acc : NodeMap × Bool, id ∈ (nodes.foldl (mergeNode ownId now) acc).1 ↔
      id ∈ acc.1 ∨ isValidNodeId id ∧ ∃ node ∈ nodes, node.id = id := by
    induction nodes with
    | nil => simp
    | cons n nodes ih =>
      intro acc
      rw [List.foldl_cons, ih, mem_mergeNode]
      simp only [List.mem_cons, exists_eq_or_imp]
      tauto
  unfold mergeNodes
  cases contactAddr with
  | none => exact hfold (kn, false)
  | some addr =>
    rw [← hfold (kn, false)]
    exact HashMap.mem_mapValues

theorem Keyed.mergeNodes (h : Keyed kn) (nodes : List NodeInfo) (contactAddr : Option String) :
    Keyed (Stouter.mergeNodes ownId nodes contactAddr now kn).1 := by
  apply all_mergeNodes (Q := fun id node => node.id = id) h
  · exact fun node _ _ => received_id ownId node
  · exact fun node _ _ existing he => (mergeEntry_id existing _).trans he
  · exact fun _ _ hn => hn

theorem mem_applyNodeJoin {joined addr : String} :
    id ∈ (applyNodeJoin joined addr now kn).1 ↔ id ∈ kn ∨ isValidNodeId id ∧ joined = id := by
  unfold applyNodeJoin
  rw [apply_ite Prod.fst]
  apply mem_guarded
  split
  · rename_i he
    exact HashMap.mem_modify_of_lookup he
  · exact AList.mem_insert _

theorem Keyed.applyNodeJoin (h : Keyed kn) (joined addr : String) :
    Keyed (Stouter.applyNodeJoin joined addr now kn).1 :=
  all_applyNodeJoin (Q := fun id node => node.id = id) h (fun _ _ => rfl) fun _ _ hn => hn

theorem mem_registerReverse {registered ourAddr : String} :
    id ∈ registerReverse registered ourAddr now kn ↔ id = registered ∨ id ∈ kn := by
  unfold registerReverse
  split
  · rename_i he
    exact HashMap.mem_modify_of_lookup he
  · exact AList.mem_insert _

theorem Keyed.registerReverse (h : Keyed kn) (registered ourAddr : String) :
    Keyed (Stouter.registerReverse registered ourAddr now kn) :=
  all_registerReverse (Q := fun id node => node.id = id) h (fun _ => rfl) fun _ hn => hn

theorem fixUnroutableAddrs_ids (connectedAddr : String) (nodes : List NodeInfo) :
    (fixUnroutableAddrs connectedAddr nodes).map NodeInfo.id = nodes.map NodeInfo.id := by
  simp [fixUnroutableAddrs, Function.comp_def]

theorem mem_values_ids (h : Keyed kn) : id ∈ (HashMap.values kn).map NodeInfo.id ↔ id ∈ kn := by
  rw [List.mem_map, ← AList.lookup_isSome, Option.isSome_iff_exists]
  constructor
  · rintro ⟨node, hn, rfl⟩
    obtain ⟨k, hk⟩ := HashMap.mem_values.mp hn
    exact ⟨node, by rw [h k node hk]; exact hk⟩
  · rintro ⟨node, hn⟩
    exact ⟨node, HashMap.mem_values.mpr ⟨id, hn⟩, h id node hn⟩

/-- The address a daemon lists itself under. -/
def Config.selfAddr (cfg : Config) : String := if cfg.outboundOnly then "" else cfg.peerAddr

/-- A snapshot lists the table, with the own entry rewritten in place or added. -/
theorem snapshotNodes_cases (cfg : Config) (localHealth : ServiceHealth) (kn : NodeMap) :
    cfg.nodeId = "" ∧ snapshotNodes cfg localHealth kn = HashMap.values kn ∨
      cfg.nodeId ≠ "" ∧ (∃ l₁ own l₂, HashMap.values kn = l₁ ++ own :: l₂ ∧ own.id = cfg.nodeId ∧
        snapshotNodes cfg localHealth kn =
          l₁ ++ { own with addr := cfg.selfAddr, health := localHealth } :: l₂) ∨
      cfg.nodeId ≠ "" ∧ (∀ node ∈ HashMap.values kn, node.id ≠ cfg.nodeId) ∧
        snapshotNodes cfg localHealth kn =
          HashMap.values kn ++ [⟨cfg.nodeId, cfg.selfAddr, none, none, localHealth⟩] := by
  by_cases he : cfg.nodeId = ""
  · exact .inl ⟨he, if_pos (by simpa using he)⟩
  · have hne : ¬ cfg.nodeId.isEmpty = true := by simpa using he
    cases hf : (HashMap.values kn).find? (·.id == cfg.nodeId) with
    | some own =>
      obtain ⟨l₁, l₂, hl, _, hown, hu⟩ := List.updateFirst_split hf
        ({ · with addr := cfg.selfAddr, health := localHealth })
      refine .inr (.inl ⟨he, l₁, own, l₂, hl, by simpa using hown, ?_⟩)
      rw [← hu, snapshotNodes, if_neg hne]
      dsimp only
      rw [hf]
      rfl
    | none =>
      refine .inr (.inr ⟨he, fun node hn => by simpa using List.find?_eq_none.mp hf node hn, ?_⟩)
      rw [snapshotNodes, if_neg hne]
      dsimp only
      rw [hf]
      rfl

theorem mem_snapshotNodes_ids (h : Keyed kn) (cfg : Config) (localHealth : ServiceHealth) :
    id ∈ (snapshotNodes cfg localHealth kn).map NodeInfo.id ↔
      id ∈ kn ∨ cfg.nodeId ≠ "" ∧ id = cfg.nodeId := by
  rw [← mem_values_ids h]
  rcases snapshotNodes_cases cfg localHealth kn with
    ⟨he, hs⟩ | ⟨he, l₁, own, l₂, hl, hown, hs⟩ | ⟨he, _, hs⟩
  · simp [hs, he]
  · rw [hs, hl]
    simp only [List.map_append, List.map_cons, List.mem_append, List.mem_cons, hown]
    tauto
  · simp [hs, he]

theorem values_ids (h : Keyed kn) : (HashMap.values kn).map NodeInfo.id = kn.keys := by
  unfold HashMap.values AList.keys List.keys
  rw [List.map_map]
  apply List.map_congr_left
  intro e he
  exact h e.1 e.2 (AList.mem_lookup_iff.mpr he)

theorem snapshotNodes_nodup (h : Keyed kn) (cfg : Config) (localHealth : ServiceHealth) :
    ((snapshotNodes cfg localHealth kn).map NodeInfo.id).Nodup := by
  have hvalues : ((HashMap.values kn).map NodeInfo.id).Nodup := by
    rw [values_ids h]
    exact kn.keys_nodup
  rcases snapshotNodes_cases cfg localHealth kn with
    ⟨_, hs⟩ | ⟨_, l₁, own, l₂, hl, _, hs⟩ | ⟨_, hother, hs⟩
  · rwa [hs]
  · rw [hl] at hvalues
    rw [hs]
    simpa using hvalues
  · rw [hs]
    exact List.nodup_map_concat.mpr ⟨hother, hvalues⟩

theorem mem_snapshotNodes (h : Keyed kn) {cfg : Config} {localHealth : ServiceHealth}
    (hn : node ∈ snapshotNodes cfg localHealth kn) :
    (cfg.nodeId ≠ "" ∧ node.id = cfg.nodeId ∧ node.addr = cfg.selfAddr ∧
        node.health = localHealth ∧
        (node.relay = none ∨ ∃ own, kn.lookup cfg.nodeId = some own ∧ node.relay = own.relay)) ∨
      (node.id = cfg.nodeId → cfg.nodeId = "") ∧ kn.lookup node.id = some node := by
  have hvalue : ∀ node ∈ HashMap.values kn, kn.lookup node.id = some node := by
    intro node hn
    obtain ⟨k, hk⟩ := HashMap.mem_values.mp hn
    rw [h k node hk]
    exact hk
  have hnodup := snapshotNodes_nodup h cfg localHealth
  rcases snapshotNodes_cases cfg localHealth kn with
    ⟨he, hs⟩ | ⟨he, l₁, own, l₂, hl, hown, hs⟩ | ⟨he, hother, hs⟩
  · rw [hs] at hn
    exact .inr ⟨fun _ => he, hvalue node hn⟩
  · rw [hs] at hn hnodup
    have hlook := hvalue own (by simp [hl])
    rw [hown] at hlook
    have hrest : ∀ node ∈ l₁ ++ l₂, node.id ≠ cfg.nodeId := by
      intro node hn
      rw [← hown]
      exact (List.nodup_map_middle.mp hnodup).1 node hn
    rcases List.mem_append.mp hn with hn | hn
    · exact .inr ⟨fun hid => absurd hid (hrest node (by simp [hn])), hvalue node (by simp [hl, hn])⟩
    · rcases List.mem_cons.mp hn with rfl | hn
      · exact .inl ⟨he, hown, rfl, rfl, .inr ⟨own, hlook, rfl⟩⟩
      · exact .inr ⟨fun hid => absurd hid (hrest node (by simp [hn])),
          hvalue node (by simp [hl, hn])⟩
  · rw [hs] at hn
    rcases List.mem_append.mp hn with hn | hn
    · exact .inr ⟨fun hid => absurd hid (hother node hn), hvalue node hn⟩
    · obtain rfl := List.mem_singleton.mp hn
      exact .inl ⟨he, rfl, rfl, rfl, .inl rfl⟩

end Members

end Stouter
