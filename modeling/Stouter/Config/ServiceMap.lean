import Stouter.Config.AdminValidity
import Stouter.Config.Footprint

/-! # Services as a finite map

A configuration with unique names is a finite map from `(group, node, name)` to
services. Adding a service inserts or replaces one key of it, removing one
erases a key and renaming one moves its value, under the conditions of the map
operations; the entries under other keys keep their order.
-/

namespace Stouter

abbrev ServiceKey := String × String × String

abbrev ServiceMap := ServiceKey → Option Service

inductive ServiceOp
  | upsert (group : String) (service : Service)
  | remove (group ownerNodeId name : String)
  | rename (group ownerNodeId source target : String)

namespace ServiceOp

def mutate (dc : DynamicConfig) : ServiceOp → Mutated
  | .upsert group service => dc.upsertService group service
  | .remove group ownerNodeId name => dc.removeService group ownerNodeId name
  | .rename group ownerNodeId source target => dc.renameService group ownerNodeId source target

/-- The call on a map, or nothing if it fails. -/
def onMap (m : ServiceMap) : ServiceOp → Option ServiceMap
  | .upsert group service =>
    some (Function.update m (group, service.nodeId, service.name) (some service))
  | .remove group node name =>
    if (m (group, node, name)).isSome then some (Function.update m (group, node, name) none)
    else none
  | .rename group node source target =>
    match m (group, node, target), m (group, node, source) with
    | none, some service =>
      some (Function.update (Function.update m (group, node, source) none) (group, node, target)
        (some { service with name := target }))
    | _, _ => none

def keys : ServiceOp → List ServiceKey
  | .upsert group service => [(group, service.nodeId, service.name)]
  | .remove group node name => [(group, node, name)]
  | .rename group node source target => [(group, node, source), (group, node, target)]

end ServiceOp

namespace DynamicConfig

open Config (Unique)

/-- The configuration as a map. -/
def toMap (dc : DynamicConfig) : ServiceMap := fun k => dc.lookup k.1 k.2.1 k.2.2

def entryKey (e : String × Service) : ServiceKey := (e.1, e.2.nodeId, e.2.name)

/-- The entries under other keys than these, in order. -/
def entriesBut (dc : DynamicConfig) (keys : List ServiceKey) : List (String × Service) :=
  dc.entries.filter fun e => !keys.contains (entryKey e)

variable {dc dc' : DynamicConfig} {group node name source target : String} {svc : Service}
  {v : UInt64} {g : ServiceGroup} {f : ServiceGroup → ServiceGroup} {keys : List ServiceKey}

theorem toMap_eq_some (hu : Unique dc) {k : ServiceKey} :
    dc.toMap k = some svc ↔ (k.1, svc) ∈ dc.entries ∧ entryKey (k.1, svc) = k := by
  obtain ⟨group, node, name⟩ := k
  have hkey : entryKey (group, svc) = (group, node, name) ↔ isInstance node name svc = true := by
    simp [entryKey, isInstance, and_comm]
  rw [hkey, toMap, lookup]
  constructor
  · intro h
    obtain ⟨g, hg, hs⟩ := Option.bind_eq_some_iff.mp h
    exact ⟨(mem_group hu hg).mpr (List.mem_of_find?_eq_some hs), List.find?_some hs⟩
  · rintro ⟨he, hi⟩
    cases hg : dc.serviceGroups.find? (·.name == group) with
    | none =>
      obtain ⟨g, hmem, hn, _⟩ := mem_entries.mp he
      exact absurd (beq_iff_eq.mpr hn) (List.find?_eq_none.mp hg g hmem)
    | some g =>
      rw [Option.bind_some]
      cases hs : g.services.find? (isInstance node name) with
      | none => exact absurd hi (List.find?_eq_none.mp hs svc ((mem_group hu hg).mp he))
      | some old =>
        have hmem : (group, old) ∈ dc.entries :=
          (mem_group hu hg).mpr (List.mem_of_find?_eq_some hs)
        have hold := isInstance_iff.mp (List.find?_some hs)
        rw [entries_inj hu hmem he (hold.trans (isInstance_iff.mp hi).symm)]

/-- The configuration with the first group of a name changed. -/
def mapGroup (dc : DynamicConfig) (group : String) (f : ServiceGroup → ServiceGroup) :
    DynamicConfig :=
  { dc with serviceGroups := dc.serviceGroups.updateFirst (·.name == group) f }

theorem lookup_mapGroup (hname : ∀ g, (f g).name = g.name)
    (hg : dc.serviceGroups.find? (·.name == group) = some g) :
    (dc.mapGroup group f).lookup group node name =
      (f g).services.find? (isInstance node name) := by
  rw [lookup_eq_find?, mapGroup, servicesOf_update hname, Function.update_self, hg]
  rfl

theorem entriesBut_mapGroup
    (h : ∀ g : ServiceGroup, g.name = group → (f g).name = group ∧
      (f g).services.filter (fun s => !keys.contains (group, s.nodeId, s.name)) =
        g.services.filter (fun s => !keys.contains (group, s.nodeId, s.name))) :
    (dc.mapGroup group f).entriesBut keys = dc.entriesBut keys := by
  apply List.filter_flatMap_updateFirst
  intro g hg
  have hg : g.name = group := by simpa using hg
  obtain ⟨hname, hs⟩ := h g hg
  rw [List.filter_map, List.filter_map, hname, hg]
  exact congrArg _ hs

/-! ## The calls on the map -/

theorem toMap_upsertService (dc : DynamicConfig) (group : String) (svc : Service) :
    (dc.upsertService group svc).2.toMap =
      Function.update dc.toMap (group, svc.nodeId, svc.name) (some svc) := by
  funext ⟨group', node', name'⟩
  rw [toMap, lookup_eq_find?, servicesOf_upsertService]
  by_cases hk : (group', node', name') = (group, svc.nodeId, svc.name)
  · obtain ⟨rfl, rfl, rfl⟩ : group' = group ∧ node' = svc.nodeId ∧ name' = svc.name := by
      simpa using hk
    rw [Function.update_self, Function.update_self, find?_place_self]
  · rw [Function.update_of_ne hk, toMap, lookup_eq_find?]
    by_cases hg : group' = group
    · subst hg
      rw [Function.update_self, find?_place_of_ne]
      rintro ⟨rfl, rfl⟩
      exact hk rfl
    · rw [Function.update_of_ne hg]

theorem toMap_removeService (dc : DynamicConfig) (group node name : String) :
    (dc.removeService group node name).2.toMap =
      Function.update dc.toMap (group, node, name) none := by
  funext ⟨group', node', name'⟩
  rw [toMap, lookup_eq_find?, servicesOf_removeService]
  by_cases hk : (group', node', name') = (group, node, name)
  · obtain ⟨rfl, rfl, rfl⟩ : group' = group ∧ node' = node ∧ name' = name := by
      simpa using hk
    rw [Function.update_self, Function.update_self, find?_drop_self]
  · rw [Function.update_of_ne hk, toMap, lookup_eq_find?]
    by_cases hg : group' = group
    · subst hg
      rw [Function.update_self, find?_drop_of_ne]
      rintro ⟨rfl, rfl⟩
      exact hk rfl
    · rw [Function.update_of_ne hg]

theorem find?_renameIn_moved {old : Service} (hn : (g.services.map Config.instanceKey).Nodup)
    (hold : g.services.find? (isInstance node source) = some old)
    (hfree : g.services.any (isInstance node target) = false) :
    (renameIn node source target g).services.find? (isInstance node target) =
        some { old with name := target } ∧
      (renameIn node source target g).services.find? (isInstance node source) = none := by
  obtain ⟨l₁, l₂, hl, hkey, hne, _, hupd⟩ :=
    services_split (fun svc => { svc with name := target }) hn hold
  have hno : ∀ x ∈ l₁ ++ l₂, isInstance node source x = false := fun x hx =>
    Bool.eq_false_iff.mpr fun hi => hne x hx (isInstance_iff.mp hi)
  have hnode : old.nodeId = node := congrArg Prod.fst hkey
  have hname : old.name = source := congrArg Prod.snd hkey
  have htarget : ∀ x ∈ g.services, isInstance node target x = false := by
    intro x hx
    exact Bool.eq_false_iff.mpr fun hi => by simpa [hi] using List.any_eq_false.mp hfree x hx
  have hmoved : source ≠ target := by
    rintro rfl
    have hmem := htarget old (List.mem_of_find?_eq_some hold)
    rw [List.find?_some hold] at hmem
    cases hmem
  rw [renameIn, hupd]
  constructor
  · have hbefore : l₁.find? (isInstance node target) = none := by
      rw [List.find?_eq_none]
      intro x hx
      simp [htarget x (by rw [hl]; exact List.mem_append_left _ hx)]
    rw [List.find?_append, hbefore, Option.none_or, List.find?_cons_of_pos]
    simp [isInstance, hnode]
  · rw [List.find?_eq_none]
    intro x hx
    rcases List.mem_append.mp hx with hx | hx
    · simp [hno x (List.mem_append_left _ hx)]
    · rcases List.mem_cons.mp hx with rfl | hx
      · simpa [isInstance] using fun h => absurd h.symm hmoved
      · simp [hno x (List.mem_append_right _ hx)]

/-- A rename fails and changes nothing, or moves an instance to a free name of its group. -/
theorem renameService_cases (dc : DynamicConfig) (group node source target : String) :
    (((dc.lookup group node target).isSome = true ∨ dc.lookup group node source = none) ∧
      ∃ err, dc.renameService group node source target = (.error err, dc)) ∨
    ∃ g old, dc.serviceGroups.find? (·.name == group) = some g ∧
      g.services.find? (isInstance node source) = some old ∧
      g.services.any (isInstance node target) = false ∧
      dc.renameService group node source target =
        bump (dc.mapGroup group (renameIn node source target)) := by
  unfold renameService lookup
  cases hg : dc.serviceGroups.find? (·.name == group) with
  | none => exact .inl ⟨.inr rfl, _, rfl⟩
  | some g =>
    simp only [Option.bind_some]
    cases htaken : g.services.any (isInstance node target) with
    | true =>
      obtain ⟨x, hx, hi⟩ := List.any_eq_true.mp htaken
      exact .inl ⟨.inl (List.find?_isSome.mpr ⟨x, hx, hi⟩), _, rfl⟩
    | false =>
      cases hs : g.services.find? (isInstance node source) with
      | none => exact .inl ⟨.inr rfl, _, rfl⟩
      | some old => exact .inr ⟨g, old, rfl, hs, htaken, rfl⟩

theorem toMap_renameService (hu : Unique dc) {old : Service}
    (hg : dc.serviceGroups.find? (·.name == group) = some g)
    (hold : g.services.find? (isInstance node source) = some old)
    (hfree : g.services.any (isInstance node target) = false) :
    (dc.mapGroup group (renameIn node source target)).toMap =
      Function.update (Function.update dc.toMap (group, node, source) none)
        (group, node, target) (some { old with name := target }) := by
  obtain ⟨htarget, hsource⟩ :=
    find?_renameIn_moved (hu.services g (List.mem_of_find?_eq_some hg)) hold hfree
  have hname : ∀ g, (renameIn node source target g).name = g.name := fun _ => rfl
  funext ⟨group', node', name'⟩
  by_cases ht : (group', node', name') = (group, node, target)
  · obtain ⟨rfl, rfl, rfl⟩ : group' = group ∧ node' = node ∧ name' = target := by simpa using ht
    rw [Function.update_self, toMap, lookup_mapGroup hname hg, htarget]
  · rw [Function.update_of_ne ht]
    by_cases hs : (group', node', name') = (group, node, source)
    · obtain ⟨rfl, rfl, rfl⟩ : group' = group ∧ node' = node ∧ name' = source := by
        simpa using hs
      rw [Function.update_self, toMap, lookup_mapGroup hname hg, hsource]
    · rw [Function.update_of_ne hs, toMap, toMap]
      apply lookup_update hname
      rintro rfl g
      apply find?_renameIn
      · rintro ⟨rfl, rfl⟩
        exact hs rfl
      · rintro ⟨rfl, rfl⟩
        exact ht rfl

/-! ## The order of the others -/

theorem entriesBut_upsertService (dc : DynamicConfig) (group : String) (svc : Service) :
    (dc.upsertService group svc).2.entriesBut [(group, svc.nodeId, svc.name)] =
      dc.entriesBut [(group, svc.nodeId, svc.name)] := by
  unfold upsertService
  cases hg : dc.serviceGroups.find? (·.name == group) with
  | some g =>
    apply entriesBut_mapGroup
    rintro g rfl
    refine ⟨name_upsertIn svc g, ?_⟩
    unfold upsertIn
    dsimp only
    split
    · apply List.filter_updateFirst
      intro s hs
      simp_all [isInstance]
    · simp [List.filter_append]
  | none => simp [entriesBut, entries, bump, entryKey]

theorem entriesBut_removeService (dc : DynamicConfig) (group node name : String) :
    (dc.removeService group node name).2.entriesBut [(group, node, name)] =
      dc.entriesBut [(group, node, name)] := by
  have hupdate : (dc.mapGroup group (removeIn node name)).entriesBut [(group, node, name)] =
      dc.entriesBut [(group, node, name)] := by
    apply entriesBut_mapGroup
    rintro g rfl
    refine ⟨rfl, ?_⟩
    rw [removeIn, List.filter_filter]
    apply List.filter_congr
    intro s _
    cases hi : isInstance node name s with
    | true => simp_all [isInstance]
    | false => simp
  unfold removeService
  split
  · rfl
  · dsimp only
    split_ifs
    · exact hupdate
    · exact hupdate

theorem entriesBut_renameService (dc : DynamicConfig) (group node source target : String) :
    (dc.mapGroup group (renameIn node source target)).entriesBut
        [(group, node, source), (group, node, target)] =
      dc.entriesBut [(group, node, source), (group, node, target)] := by
  apply entriesBut_mapGroup
  rintro g rfl
  refine ⟨rfl, ?_⟩
  apply List.filter_updateFirst
  intro s hs
  simp_all [isInstance]

end DynamicConfig

/-! ## Runs of calls -/

namespace ServiceOp

open DynamicConfig
open Config (Unique)

/-- What the call does to the map it does to the configuration, leaving the routes and the other
entries in their order; where the map operation fails, it fails and changes nothing. -/
def Refined (op : ServiceOp) (dc : DynamicConfig) : Prop :=
  match op.onMap dc.toMap with
  | none => ∃ err, op.mutate dc = (.error err, dc)
  | some m => ∃ dc', op.mutate dc = (.ok dc'.version, dc') ∧ dc'.toMap = m ∧
      dc'.version.toNat = dc.version.toNat + 1 ∧ dc'.routes = dc.routes ∧
      dc'.entriesBut op.keys = dc.entriesBut op.keys ∧ Unique dc'

variable {dc : DynamicConfig} {op : ServiceOp} {ops : List ServiceOp}

theorem refined_upsert (hu : Unique dc) (hv : dc.version.toNat + 1 < 2 ^ 64) (group : String)
    (svc : Service) : Refined (.upsert group svc) dc := by
  have hmap := toMap_upsertService dc group svc
  have hothers := entriesBut_upsertService dc group svc
  rcases mutates_upsertService dc group svc with ⟨err, h⟩ | ⟨hr, hversion⟩
  · have hok := isOk_upsertService dc group svc
    rw [h] at hok
    cases hok
  · have hleaves := upsertService_leaves hu (Prod.ext hr rfl)
    refine ⟨(dc.upsertService group svc).2, Prod.ext (by rw [hversion]; exact hr) rfl, hmap, ?_,
      hleaves.routes, hothers, hleaves.unique⟩
    rw [hversion, toNat_version_succ hv]

theorem refined_remove (hu : Unique dc) (hv : dc.version.toNat + 1 < 2 ^ 64)
    (group node name : String) : Refined (.remove group node name) dc := by
  have hmap := toMap_removeService dc group node name
  have hothers := entriesBut_removeService dc group node name
  have hok := isOk_removeService dc group node name
  unfold Refined onMap
  rcases mutates_removeService dc group node name with ⟨err, h⟩ | ⟨hr, hversion⟩
  · rw [h] at hok
    have hnone : (dc.toMap (group, node, name)).isSome = false := hok.symm
    simp only [hnone, Bool.false_eq_true, if_false]
    exact ⟨err, h⟩
  · rw [hr] at hok
    have hsome : (dc.toMap (group, node, name)).isSome = true := hok.symm
    have hleaves := removeService_leaves hu (Prod.ext hr rfl)
    simp only [hsome, if_true]
    refine ⟨(dc.removeService group node name).2, Prod.ext (by rw [hversion]; exact hr) rfl, hmap,
      ?_, hleaves.routes, hothers, hleaves.unique⟩
    rw [hversion, toNat_version_succ hv]

theorem refined_rename (hu : Unique dc) (hv : dc.version.toNat + 1 < 2 ^ 64)
    (group node source target : String) : Refined (.rename group node source target) dc := by
  rcases renameService_cases dc group node source target with
    ⟨hfail, err, h⟩ | ⟨g, old, hg, hold, hfree, h⟩
  · have hmap : onMap dc.toMap (.rename group node source target) = none := by
      rcases hfail with htaken | hmissing
      · obtain ⟨taken, htaken⟩ := Option.isSome_iff_exists.mp htaken
        have htarget : dc.toMap (group, node, target) = some taken := htaken
        simp [onMap, htarget]
      · have hsource : dc.toMap (group, node, source) = none := hmissing
        cases htarget : dc.toMap (group, node, target) <;> simp [onMap, htarget, hsource]
    unfold Refined
    rw [hmap]
    exact ⟨err, h⟩
  · have htarget : dc.toMap (group, node, target) = none := by
      rw [toMap, lookup, hg, Option.bind_some, List.find?_eq_none]
      intro x hx
      simpa using List.any_eq_false.mp hfree x hx
    have hsource : dc.toMap (group, node, source) = some old := by
      rw [toMap, lookup, hg, Option.bind_some, hold]
    have hmap : onMap dc.toMap (.rename group node source target) =
        some (Function.update (Function.update dc.toMap (group, node, source) none)
          (group, node, target) (some { old with name := target })) := by
      simp [onMap, htarget, hsource]
    obtain ⟨_, _, _, _, hleaves⟩ := renameService_leaves hu h
    unfold Refined
    rw [hmap]
    exact ⟨(bump (dc.mapGroup group (renameIn node source target))).2, h,
      toMap_renameService hu hg hold hfree, toNat_version_succ hv, rfl,
      entriesBut_renameService dc group node source target, hleaves.unique⟩

theorem refined_of_unique (hu : Unique dc) (hv : dc.version.toNat + 1 < 2 ^ 64) (op : ServiceOp) :
    op.Refined dc := by
  cases op with
  | upsert group service => exact refined_upsert hu hv group service
  | remove group node name => exact refined_remove hu hv group node name
  | rename group node source target => exact refined_rename hu hv group node source target

/-- The configuration after a sequence of calls, some of which may fail. -/
def runAll (dc : DynamicConfig) (ops : List ServiceOp) : DynamicConfig :=
  ops.foldl (fun dc op => (op.mutate dc).2) dc

def onMapAll (m : ServiceMap) (ops : List ServiceOp) : ServiceMap :=
  ops.foldl (fun m op => (op.onMap m).getD m) m

/-- No call of the sequence finds the version at the maximum. -/
def BelowMax (dc : DynamicConfig) : List ServiceOp → Prop
  | [] => True
  | op :: ops => dc.version.toNat + 1 < 2 ^ 64 ∧ BelowMax (op.mutate dc).2 ops

theorem Refined.step (hu : Unique dc) (h : op.Refined dc) :
    Unique (op.mutate dc).2 ∧ (op.mutate dc).2.routes = dc.routes ∧
      (op.mutate dc).2.toMap = (op.onMap dc.toMap).getD dc.toMap := by
  unfold Refined at h
  cases hm : op.onMap dc.toMap with
  | none =>
    rw [hm] at h
    obtain ⟨err, h⟩ := h
    rw [h]
    exact ⟨hu, rfl, rfl⟩
  | some m =>
    rw [hm] at h
    obtain ⟨dc', h, hmap, _, hroutes, _, hunique⟩ := h
    rw [h]
    exact ⟨hunique, hroutes, hmap⟩

/-- In every sequence of calls that does not exhaust the version, each call refines its map
operation, and so does the whole sequence; the map has exactly the entries of the
configuration. -/
theorem services_refine_map (hu : Unique dc) (hv : BelowMax dc ops) :
    (∀ pre op post, ops = pre ++ op :: post → op.Refined (runAll dc pre)) ∧
      (runAll dc ops).toMap = onMapAll dc.toMap ops ∧
      (runAll dc ops).routes = dc.routes ∧ Unique (runAll dc ops) ∧
      ∀ k svc, (runAll dc ops).toMap k = some svc ↔
        (k.1, svc) ∈ (runAll dc ops).entries ∧ entryKey (k.1, svc) = k := by
  induction ops generalizing dc with
  | nil =>
    refine ⟨?_, rfl, rfl, hu, fun k svc => toMap_eq_some hu⟩
    intro pre op post h
    cases pre <;> cases h
  | cons op ops ih =>
    obtain ⟨hversion, hrest⟩ := hv
    have hrefined := refined_of_unique hu hversion op
    obtain ⟨hunique, hroutes, hmap⟩ := hrefined.step hu
    obtain ⟨hall, hmaps, hroutes', hunique', hentries⟩ := ih hunique hrest
    refine ⟨?_, ?_, hroutes'.trans hroutes, hunique', hentries⟩
    · intro pre op' post h
      cases pre with
      | nil =>
        obtain ⟨rfl, rfl⟩ := List.cons.inj h
        exact hrefined
      | cons op'' pre =>
        obtain ⟨rfl, rfl⟩ := List.cons.inj h
        exact hall pre op' post rfl
    · rw [hmap] at hmaps
      exact hmaps

def webCalls : List ServiceOp :=
  [.upsert "web" apiService, .rename "web" "n1" "api" "shop", .rename "web" "n1" "shop" "shop"]

theorem services_refine_map_webCalls :
    Unique .default ∧ BelowMax .default webCalls ∧
      (runAll .default webCalls).toMap ("web", "n1", "shop") =
        some { apiService with name := "shop" } ∧
      (runAll .default webCalls).toMap ("web", "n1", "api") = none := by
  have hu : Unique .default := ⟨List.nodup_nil, by simp [DynamicConfig.default]⟩
  have hv : BelowMax .default webCalls := ⟨by decide, by decide, by decide, trivial⟩
  obtain ⟨_, hmap, _⟩ := services_refine_map hu hv
  exact ⟨hu, hv, by rw [hmap]; rfl, by rw [hmap]; rfl⟩

end ServiceOp

end Stouter
