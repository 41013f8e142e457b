import Stouter.Config.Entries

/-! # What a mutation leaves alone

The dynamic configuration has a place for each instance key and for each
service's routes, addressed as the operations address them: the first group of
a name, the first instance of a key. An operation names the places it writes
to and leaves all others as they were, on every configuration, also one with
duplicate names that no check has seen.
-/

namespace Stouter

inductive Place
  | service (group node name : String)
  | routes (service : String)
  deriving DecidableEq

namespace DynamicConfig

/-- The instance the operations find under the key. -/
def lookup (dc : DynamicConfig) (group node name : String) : Option Service :=
  (dc.serviceGroups.find? (·.name == group)).bind fun g => g.services.find? (isInstance node name)

/-- What the configuration has in a place. -/
def view (dc : DynamicConfig) : Place → Option Service ⊕ List Route
  | .service group node name => .inl (dc.lookup group node name)
  | .routes service => .inr (dc.routes.filter (·.service == service))

end DynamicConfig

def AdminOp.writes : AdminOp → List Place
  | .serviceAdd group name ownerNodeId _ _ _ _ _ _ _ _ _ _ => [.service group ownerNodeId name]
  | .routesSet service _ => [.routes service]
  | .serviceRename group ownerNodeId source target =>
    [.service group ownerNodeId source, .service group ownerNodeId target]
  | .serviceRemove group ownerNodeId name => [.service group ownerNodeId name]

namespace DynamicConfig

variable {dc dc' : DynamicConfig} {group node name group' node' name' : String} {svc : Service}
  {v : UInt64} {f : ServiceGroup → ServiceGroup}

theorem isInstance_false {s : Service} (h : isInstance node name s = true)
    (hne : ¬ (node' = node ∧ name' = name)) : isInstance node' name' s = false := by
  rw [isInstance, Bool.and_eq_true, beq_iff_eq, beq_iff_eq] at h
  rw [isInstance, Bool.and_eq_false_iff, beq_eq_false_iff_ne, beq_eq_false_iff_ne, h.1, h.2]
  by_contra hc
  push Not at hc
  exact hne ⟨hc.2.symm, hc.1.symm⟩

theorem lookup_update (hname : ∀ g, (f g).name = g.name)
    (h : group' = group → ∀ g : ServiceGroup,
      (f g).services.find? (isInstance node' name') = g.services.find? (isInstance node' name')) :
    lookup { dc with serviceGroups := dc.serviceGroups.updateFirst (·.name == group) f }
      group' node' name' = dc.lookup group' node' name' := by
  unfold lookup
  by_cases hg : group' = group
  · subst hg
    rw [List.find?_updateFirst fun g hg => by rwa [hname g], Option.bind_map]
    exact congrArg _ (funext fun g => h rfl g)
  · rw [List.find?_updateFirst_of_not]
    intro g hn
    rw [hname g, and_self, beq_eq_false_iff_ne, beq_iff_eq.mp hn]
    exact fun he => hg he.symm

theorem find?_upsertIn (g : ServiceGroup) (hne : ¬ (node' = svc.nodeId ∧ name' = svc.name)) :
    (upsertIn svc g).services.find? (isInstance node' name') =
      g.services.find? (isInstance node' name') := by
  have hself : isInstance svc.nodeId svc.name svc = true := by simp [isInstance]
  unfold upsertIn
  dsimp only
  split
  · exact List.find?_updateFirst_of_not fun s hs =>
      ⟨isInstance_false hs hne, isInstance_false hself hne⟩
  · simp [List.find?_append, isInstance_false hself hne]

theorem find?_removeIn (g : ServiceGroup) (hne : ¬ (node' = node ∧ name' = name)) :
    (removeIn node name g).services.find? (isInstance node' name') =
      g.services.find? (isInstance node' name') := by
  rw [removeIn, List.find?_filter]
  congr 1
  funext s
  cases hs : isInstance node name s with
  | true => simp [isInstance_false hs hne]
  | false => simp

theorem find?_renameIn (g : ServiceGroup) {source target : String}
    (hs : ¬ (node' = node ∧ name' = source)) (ht : ¬ (node' = node ∧ name' = target)) :
    (renameIn node source target g).services.find? (isInstance node' name') =
      g.services.find? (isInstance node' name') := by
  refine List.find?_updateFirst_of_not fun s h => ⟨isInstance_false h hs, isInstance_false ?_ ht⟩
  rw [isInstance, Bool.and_eq_true] at h
  simpa [isInstance] using h.2

theorem view_bump (h : bump dc = (.ok v, dc')) : dc'.view = dc.view := by
  obtain ⟨-, rfl⟩ := Prod.mk.inj h
  funext i
  cases i <;> rfl

variable {i : Place}

theorem view_upsertService (h : dc.upsertService group svc = (.ok v, dc'))
    (hi : i ≠ .service group svc.nodeId svc.name) : dc'.view i = dc.view i := by
  unfold upsertService at h
  cases hg : dc.serviceGroups.find? (·.name == group) with
  | some g =>
    rw [hg] at h
    rw [view_bump h]
    cases i with
    | routes service => rfl
    | service group' node' name' =>
      apply congrArg Sum.inl
      apply lookup_update (name_upsertIn svc)
      intro he g
      apply find?_upsertIn
      rintro ⟨rfl, rfl⟩
      exact hi (he ▸ rfl)
  | none =>
    rw [hg] at h
    rw [view_bump h]
    cases i with
    | routes service => rfl
    | service group' node' name' =>
      apply congrArg Sum.inl
      unfold lookup
      rw [List.find?_append]
      by_cases he : group' = group
      · -- The new group has the new instance only, and that is not the one looked up.
        subst he
        have hself : isInstance svc.nodeId svc.name svc = true := by simp [isInstance]
        have hne : ¬ (node' = svc.nodeId ∧ name' = svc.name) := by
          rintro ⟨rfl, rfl⟩
          exact hi rfl
        simp [hg, isInstance_false hself hne]
      · have hne : group ≠ group' := fun h => he h.symm
        simp [hne]

theorem view_removeService (h : dc.removeService group node name = (.ok v, dc'))
    (hi : i ≠ .service group node name) : dc'.view i = dc.view i := by
  unfold removeService at h
  split at h
  · cases h
  dsimp only at h
  split_ifs at h
  · cases h
  rw [view_bump h]
  cases i with
  | routes service => rfl
  | service group' node' name' =>
    refine congrArg Sum.inl (lookup_update (fun g => rfl) fun he g => find?_removeIn g ?_)
    rintro ⟨rfl, rfl⟩
    exact hi (he ▸ rfl)

theorem view_renameService {source target : String}
    (h : dc.renameService group node source target = (.ok v, dc'))
    (hs : i ≠ .service group node source) (ht : i ≠ .service group node target) :
    dc'.view i = dc.view i := by
  unfold renameService at h
  split at h
  · cases h
  split_ifs at h
  · cases h
  split at h
  · cases h
  rw [view_bump h]
  cases i with
  | routes service => rfl
  | service group' node' name' =>
    refine congrArg Sum.inl (lookup_update (fun g => rfl) fun he g => find?_renameIn g ?_ ?_)
    · rintro ⟨rfl, rfl⟩
      exact hs (he ▸ rfl)
    · rintro ⟨rfl, rfl⟩
      exact ht (he ▸ rfl)

theorem view_setRoutes {http : HttpCrate} {service : String} {routes : List Route}
    (h : dc.setRoutes http service routes = (.ok v, dc')) (hi : i ≠ .routes service) :
    dc'.view i = dc.view i := by
  obtain ⟨-, hroutes, hgroups, j, hspliced⟩ := setRoutes_splice h
  cases i with
  | routes service' =>
    have hne : service' ≠ service := fun he => hi (he ▸ rfl)
    rw [view, view, hspliced, filter_splice j (service_of_validateRoutes hroutes), if_neg hne]
  | service group' node' name' => rw [view, view, lookup, lookup, hgroups]

end DynamicConfig

/-- A successful operation changes only the places it writes to. -/
theorem AdminOp.view_mutate {http : HttpCrate} {dc dc' : DynamicConfig} {v : UInt64} {op : AdminOp}
    (h : op.mutate http dc = (.ok v, dc')) {i : Place} (hi : i ∉ op.writes) :
    dc'.view i = dc.view i := by
  cases op with
  | serviceAdd =>
    simp only [AdminOp.mutate] at h
    split at h
    · cases h
    · exact DynamicConfig.view_upsertService h (by simpa [writes] using hi)
  | routesSet => exact DynamicConfig.view_setRoutes h (by simpa [writes] using hi)
  | serviceRename =>
    simp only [writes, List.mem_cons, List.not_mem_nil, or_false, not_or] at hi
    exact DynamicConfig.view_renameService h hi.1 hi.2
  | serviceRemove => exact DynamicConfig.view_removeService h (by simpa [writes] using hi)

/-! ## What an operation leaves in its group

The instances of each group, as the operations see them. Adding a service and removing one change
the list of the group they name; a removal that finds nothing changes nothing.
-/

namespace DynamicConfig

variable {dc : DynamicConfig} {group node name node' name' : String} {svc : Service}
  {services : List Service}

def servicesOf (dc : DynamicConfig) (group : String) : List Service :=
  ((dc.serviceGroups.find? (·.name == group)).map (·.services)).getD []

/-- The instances of a group once `svc` is among them. -/
def place (svc : Service) (services : List Service) : List Service :=
  (upsertIn svc ⟨"", services⟩).services

/-- The instances of a group without those of `(node, name)`. -/
def drop (node name : String) (services : List Service) : List Service :=
  (removeIn node name ⟨"", services⟩).services

theorem lookup_eq_find? (dc : DynamicConfig) (group node name : String) :
    dc.lookup group node name = (dc.servicesOf group).find? (isInstance node name) := by
  unfold lookup servicesOf
  cases dc.serviceGroups.find? (·.name == group) with
  | none => rfl
  | some g => rfl

theorem services_upsertIn (svc : Service) (g : ServiceGroup) :
    (upsertIn svc g).services = place svc g.services := by
  unfold place upsertIn
  dsimp only
  split <;> rfl

theorem servicesOf_update {f : ServiceGroup → ServiceGroup} (hname : ∀ g, (f g).name = g.name) :
    servicesOf { dc with serviceGroups := dc.serviceGroups.updateFirst (·.name == group) f } =
      Function.update dc.servicesOf group
        (((dc.serviceGroups.find? (·.name == group)).map fun g => (f g).services).getD []) := by
  funext group'
  unfold servicesOf
  by_cases hg : group' = group
  · subst hg
    rw [Function.update_self, List.find?_updateFirst fun g hg => by rwa [hname g], Option.map_map]
    rfl
  · rw [Function.update_of_ne hg, List.find?_updateFirst_of_not]
    intro g hn
    rw [hname g, and_self, beq_eq_false_iff_ne, beq_iff_eq.mp hn]
    exact fun he => hg he.symm

theorem servicesOf_upsertService (dc : DynamicConfig) (group : String) (svc : Service) :
    (dc.upsertService group svc).2.servicesOf =
      Function.update dc.servicesOf group (place svc (dc.servicesOf group)) := by
  unfold upsertService
  cases hg : dc.serviceGroups.find? (·.name == group) with
  | some g =>
    refine (servicesOf_update (name_upsertIn svc)).trans ?_
    simp [servicesOf, hg, services_upsertIn]
  | none =>
    funext group'
    by_cases he : group' = group
    · subst he
      simp [servicesOf, bump, hg, place, upsertIn]
    · have hne : group ≠ group' := fun h => he h.symm
      simp [servicesOf, bump, he, hne]

theorem isOk_upsertService (dc : DynamicConfig) (group : String) (svc : Service) :
    (dc.upsertService group svc).1.isOk = true := by
  unfold upsertService
  split <;> rfl

theorem servicesOf_removeService (dc : DynamicConfig) (group node name : String) :
    (dc.removeService group node name).2.servicesOf =
      Function.update dc.servicesOf group (drop node name (dc.servicesOf group)) := by
  unfold removeService
  cases hg : dc.serviceGroups.find? (·.name == group) with
  | none => simp [servicesOf, hg, drop, removeIn]
  | some g =>
    have hd : servicesOf { dc with serviceGroups :=
        dc.serviceGroups.updateFirst (·.name == group) (removeIn node name) } =
          Function.update dc.servicesOf group (drop node name (dc.servicesOf group)) := by
      have hname : ∀ g, (removeIn node name g).name = g.name := fun _ => rfl
      rw [servicesOf_update hname]
      simp [servicesOf, hg, drop, removeIn]
    dsimp only
    -- Refused or not, the group is rewritten.
    split_ifs
    · exact hd
    · exact hd

/-- A removal is refused when there is nothing to remove. -/
theorem isOk_removeService (dc : DynamicConfig) (group node name : String) :
    (dc.removeService group node name).1.isOk = (dc.lookup group node name).isSome := by
  unfold removeService lookup
  cases hg : dc.serviceGroups.find? (·.name == group) with
  | none => rfl
  | some g =>
    have hl : (removeIn node name g).services.length = g.services.length ↔
        g.services.find? (isInstance node name) = none := by
      rw [removeIn, List.length_filter_eq_length_iff, List.find?_eq_none]
      simp
    dsimp only
    rw [Option.bind_some]
    by_cases hn : g.services.find? (isInstance node name) = none
    · rw [if_pos (hl.mpr hn), hn]
      rfl
    · rw [if_neg fun he => hn (hl.mp he), Option.ne_none_iff_isSome.mp hn]
      rfl

theorem find?_place_self (svc : Service) (services : List Service) :
    (place svc services).find? (isInstance svc.nodeId svc.name) = some svc := by
  have hself : isInstance svc.nodeId svc.name svc = true := by simp [isInstance]
  unfold place upsertIn
  dsimp only
  cases ho : services.find? (isInstance svc.nodeId svc.name) with
  | some old => simp [List.find?_updateFirst fun _ _ => hself, ho]
  | none => simp [List.find?_append, ho, hself]

theorem find?_drop_self (node name : String) (services : List Service) :
    (drop node name services).find? (isInstance node name) = none := by
  rw [List.find?_eq_none]
  intro s hs
  simpa using (List.mem_filter.mp hs).2

theorem find?_place_of_ne (hne : ¬ (node = svc.nodeId ∧ name = svc.name)) :
    (place svc services).find? (isInstance node name) = services.find? (isInstance node name) :=
  find?_upsertIn ⟨"", services⟩ hne

theorem find?_drop_of_ne (hne : ¬ (node' = node ∧ name' = name)) :
    (drop node name services).find? (isInstance node' name') =
      services.find? (isInstance node' name') :=
  find?_removeIn ⟨"", services⟩ hne

theorem isSome_find?_place (svc : Service)
    (h : (services.find? (isInstance node name)).isSome = true) :
    ((place svc services).find? (isInstance node name)).isSome = true := by
  by_cases he : node = svc.nodeId ∧ name = svc.name
  · rw [he.1, he.2, find?_place_self]
    rfl
  · rwa [find?_place_of_ne he]

theorem find?_drop_eq_none (node name : String)
    (h : services.find? (isInstance node' name') = none) :
    (drop node name services).find? (isInstance node' name') = none := by
  rw [List.find?_eq_none] at h ⊢
  exact fun s hs => h s (List.mem_filter.mp hs).1

theorem drop_place (h : services.find? (isInstance svc.nodeId svc.name) = none) :
    drop svc.nodeId svc.name (place svc services) = services := by
  have hself : isInstance svc.nodeId svc.name svc = true := by simp [isInstance]
  unfold drop removeIn place upsertIn
  simp only [h, List.filter_append]
  rw [List.filter_eq_self.mpr fun s hs => by simpa using List.find?_eq_none.mp h s hs]
  simp [hself]

theorem place_eq_self (h : services.find? (isInstance svc.nodeId svc.name) = some svc) :
    place svc services = services := by
  unfold place upsertIn
  simp only [h]
  exact List.updateFirst_eq_self h rfl

end DynamicConfig

end Stouter
