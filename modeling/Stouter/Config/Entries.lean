import Stouter.Config.Validate

/-! # Configurations as sets of entries

With unique group names and unique instances in each group, a dynamic
configuration is a finite map from `(group, node, name)` to services. Seen
this way, adding a service replaces the entry under its key, removing one
erases a key and renaming one moves it. Setting routes replaces those of one
service.
-/

namespace Stouter

namespace DynamicConfig

open Config (Unique instanceKey)

def entries (dc : DynamicConfig) : List (String × Service) :=
  dc.serviceGroups.flatMap fun g => g.services.map fun s => (g.name, s)

/-- The entries of other instances than the one under the key. -/
def others (dc : DynamicConfig) (group node name : String) : Set Service :=
  {s | ∃ g, (g, s) ∈ dc.entries ∧ ¬ (g = group ∧ isInstance node name s = true)}

variable {dc : DynamicConfig} {g : ServiceGroup} {f : ServiceGroup → ServiceGroup}
  {group node name : String} {s svc : Service} {n : String}

theorem mem_entries :
    (n, s) ∈ dc.entries ↔ ∃ g ∈ dc.serviceGroups, g.name = n ∧ s ∈ g.services := by
  simp only [entries, List.mem_flatMap, List.mem_map, Prod.mk.injEq]
  constructor
  · rintro ⟨g, hg, _, hs, rfl, rfl⟩
    exact ⟨g, hg, rfl, hs⟩
  · rintro ⟨g, hg, rfl, hs⟩
    exact ⟨g, hg, s, hs, rfl, rfl⟩

theorem mem_instances : s ∈ dc.instances ↔ ∃ n, (n, s) ∈ dc.entries := by
  simp only [mem_entries, instances, List.mem_flatMap]
  constructor
  · rintro ⟨g, hg, hs⟩
    exact ⟨g.name, g, hg, rfl, hs⟩
  · rintro ⟨_, g, hg, _, hs⟩
    exact ⟨g, hg, hs⟩

theorem isInstance_iff : isInstance node name s = true ↔ instanceKey s = (node, name) := by
  simp [isInstance, instanceKey, and_comm]

/-! ## One group changes -/

theorem groups_split (hu : Unique dc) (hg : dc.serviceGroups.find? (·.name == group) = some g)
    (f : ServiceGroup → ServiceGroup) :
    ∃ l₁ l₂, dc.serviceGroups = l₁ ++ g :: l₂ ∧ g.name = group ∧
      (∀ x ∈ l₁ ++ l₂, x.name ≠ group) ∧
      dc.serviceGroups.updateFirst (·.name == group) f = l₁ ++ f g :: l₂ := by
  obtain ⟨l₁, l₂, hl, -, hname, hupd⟩ := List.updateFirst_split hg f
  have hname : g.name = group := by simpa using hname
  have hnodup := hu.groups
  rw [hl, List.nodup_map_middle, hname] at hnodup
  exact ⟨l₁, l₂, hl, hname, hnodup.1, hupd⟩

theorem mem_entries_update (hu : Unique dc)
    (hg : dc.serviceGroups.find? (·.name == group) = some g) (hf : (f g).name = g.name) :
    (n, s) ∈ ({ dc with serviceGroups :=
        dc.serviceGroups.updateFirst (·.name == group) f } : DynamicConfig).entries ↔
      if n = group then s ∈ (f g).services else (n, s) ∈ dc.entries := by
  obtain ⟨l₁, l₂, hl, hname, hne, hupd⟩ := groups_split hu hg f
  rw [mem_entries, mem_entries]
  simp only [hupd]
  simp only [hl, List.mem_append, List.mem_cons]
  split_ifs with hn
  · constructor
    · rintro ⟨x, hx | rfl | hx, hxn, hs⟩
      · exact absurd (hxn.trans hn) (hne x (List.mem_append_left _ hx))
      · exact hs
      · exact absurd (hxn.trans hn) (hne x (List.mem_append_right _ hx))
    · intro hs
      exact ⟨f g, .inr (.inl rfl), (hf.trans hname).trans hn.symm, hs⟩
  · constructor
    · rintro ⟨x, hx | rfl | hx, hxn, hs⟩
      · exact ⟨x, .inl hx, hxn, hs⟩
      · exact absurd (hxn.symm.trans (hf.trans hname)) hn
      · exact ⟨x, .inr (.inr hx), hxn, hs⟩
    · rintro ⟨x, hx | rfl | hx, hxn, hs⟩
      · exact ⟨x, .inl hx, hxn, hs⟩
      · exact absurd (hxn.symm.trans hname) hn
      · exact ⟨x, .inr (.inr hx), hxn, hs⟩

theorem unique_update (hu : Unique dc)
    (hg : dc.serviceGroups.find? (·.name == group) = some g) (hf : (f g).name = g.name)
    (hs : ((f g).services.map instanceKey).Nodup) :
    Unique { dc with serviceGroups := dc.serviceGroups.updateFirst (·.name == group) f } := by
  obtain ⟨l₁, l₂, hl, -, -, hupd⟩ := groups_split hu hg f
  constructor
  · have hnames := hu.groups
    rw [hl] at hnames
    simpa [hupd, hf] using hnames
  · intro x hx
    simp only [hupd, List.mem_append, List.mem_cons] at hx
    rcases hx with hx | rfl | hx
    · exact hu.services x (by rw [hl]; exact List.mem_append_left _ hx)
    · exact hs
    · exact hu.services x (by rw [hl]; exact List.mem_append_right _ (List.mem_cons_of_mem _ hx))

theorem mem_group (hu : Unique dc) (hg : dc.serviceGroups.find? (·.name == group) = some g) :
    (group, s) ∈ dc.entries ↔ s ∈ g.services := by
  have h := mem_entries_update (n := group) (s := s) (f := id) hu hg rfl
  rw [if_pos rfl, List.updateFirst_eq_self hg rfl] at h
  exact h

theorem entries_inj {t : Service} (hu : Unique dc) (hs : (group, s) ∈ dc.entries)
    (ht : (group, t) ∈ dc.entries) (hk : instanceKey s = instanceKey t) : s = t := by
  obtain ⟨x, hx, hxn, hs⟩ := mem_entries.mp hs
  obtain ⟨y, hy, hyn, ht⟩ := mem_entries.mp ht
  obtain rfl : x = y := List.inj_on_of_nodup_map hu.groups hx hy (hxn.trans hyn.symm)
  exact List.inj_on_of_nodup_map (hu.services x hx) hs ht hk

/-! ## One instance changes -/

theorem services_split {services : List Service} {old : Service} (fs : Service → Service)
    (hn : (services.map instanceKey).Nodup)
    (ho : services.find? (isInstance node name) = some old) :
    ∃ l₁ l₂, services = l₁ ++ old :: l₂ ∧ instanceKey old = (node, name) ∧
      (∀ x ∈ l₁ ++ l₂, instanceKey x ≠ (node, name)) ∧ ((l₁ ++ l₂).map instanceKey).Nodup ∧
      services.updateFirst (isInstance node name) fs = l₁ ++ fs old :: l₂ := by
  obtain ⟨l₁, l₂, hl, -, hkey, hupd⟩ := List.updateFirst_split ho fs
  rw [isInstance_iff] at hkey
  rw [hl, List.nodup_map_middle, hkey] at hn
  exact ⟨l₁, l₂, hl, hkey, hn.1, hn.2, hupd⟩

theorem replace_instance {services : List Service} {old : Service} (fs : Service → Service)
    (hn : (services.map instanceKey).Nodup)
    (ho : services.find? (isInstance node name) = some old)
    (hfree : ∀ x ∈ services, instanceKey x = instanceKey (fs old) → instanceKey x = (node, name)) :
    (∀ s, s ∈ services.updateFirst (isInstance node name) fs ↔
      s ∈ services ∧ isInstance node name s = false ∨ s ∈ ({fs old} : Set Service)) ∧
      ((services.updateFirst (isInstance node name) fs).map instanceKey).Nodup := by
  obtain ⟨l₁, l₂, hl, hkey, hne, hnodup, hupd⟩ := services_split fs hn ho
  have hno : ∀ x ∈ l₁ ++ l₂, isInstance node name x = false := fun x hx =>
    Bool.eq_false_iff.mpr fun hi => hne x hx (isInstance_iff.mp hi)
  rw [hupd]
  constructor
  · intro s
    rw [hl]
    simp only [List.mem_append, List.mem_cons, Set.mem_singleton_iff] at hno ⊢
    constructor
    · rintro (hs | rfl | hs)
      · exact .inl ⟨.inl hs, hno s (.inl hs)⟩
      · exact .inr rfl
      · exact .inl ⟨.inr (.inr hs), hno s (.inr hs)⟩
    · rintro (⟨hs | rfl | hs, hi⟩ | rfl)
      · exact .inl hs
      · rw [isInstance_iff.mpr hkey] at hi
        cases hi
      · exact .inr (.inr hs)
      · exact .inr (.inl rfl)
  · rw [List.nodup_map_middle]
    refine ⟨fun x hx he => ?_, hnodup⟩
    refine hne x hx (hfree x ?_ he)
    rw [hl]
    rcases List.mem_append.mp hx with hx | hx
    · exact List.mem_append_left _ hx
    · exact List.mem_append_right _ (List.mem_cons_of_mem _ hx)

/-- The instances once one group has kept its other instances and gained `new`. -/
theorem instances_update {new : Set Service} (hu : Unique dc)
    (hg : dc.serviceGroups.find? (·.name == group) = some g) (hf : (f g).name = g.name)
    (hmem : ∀ s, s ∈ (f g).services ↔
      s ∈ g.services ∧ isInstance node name s = false ∨ s ∈ new) :
    {s | s ∈ ({ dc with serviceGroups :=
        dc.serviceGroups.updateFirst (·.name == group) f } : DynamicConfig).instances} =
      dc.others group node name ∪ new := by
  ext s
  simp only [Set.mem_ofPred_eq, Set.mem_union, others, mem_instances, mem_entries_update hu hg hf]
  constructor
  · rintro ⟨n, hn⟩
    by_cases he : n = group
    · rw [if_pos he, hmem] at hn
      refine hn.imp_left fun ⟨hs, hi⟩ => ⟨group, (mem_group hu hg).mpr hs, ?_⟩
      simp [hi]
    · rw [if_neg he] at hn
      exact .inl ⟨n, hn, fun h => he h.1⟩
  · rintro (⟨n, hn, hne⟩ | hs)
    · refine ⟨n, ?_⟩
      by_cases he : n = group
      · subst he
        rw [if_pos rfl, hmem]
        exact .inl ⟨(mem_group hu hg).mp hn, by simpa using hne⟩
      · rwa [if_neg he]
    · exact ⟨group, by rw [if_pos rfl, hmem]; exact .inr hs⟩

/-! ## The three operations on services -/

variable {dc' : DynamicConfig} {v : UInt64}

/-- What a successful operation leaves behind: unique keys, the old routes and these instances. -/
structure Leaves (dc dc' : DynamicConfig) (instances : Set Service) : Prop where
  unique : Unique dc'
  routes : dc'.routes = dc.routes
  instances : {s | s ∈ dc'.instances} = instances

theorem leaves_bump {d : DynamicConfig} {instances : Set Service} (h : bump d = (.ok v, dc'))
    (hl : Leaves dc d instances) : Leaves dc dc' instances := by
  obtain ⟨-, rfl⟩ := Prod.mk.inj h
  exact ⟨⟨hl.unique.groups, hl.unique.services⟩, hl.routes, hl.instances⟩

theorem removeService_leaves (hu : Unique dc)
    (h : dc.removeService group node name = (.ok v, dc')) :
    Leaves dc dc' (dc.others group node name) := by
  unfold removeService at h
  cases hg : dc.serviceGroups.find? (·.name == group) with
  | none => simp [hg] at h
  | some g =>
    simp only [hg] at h
    split_ifs at h
    · cases h
    have hmem : ∀ s, s ∈ (removeIn node name g).services ↔
        s ∈ g.services ∧ isInstance node name s = false ∨ s ∈ (∅ : Set Service) := by
      intro s
      simp [removeIn]
    refine leaves_bump h ⟨unique_update hu hg rfl ?_, rfl, ?_⟩
    · exact (hu.services g (List.mem_of_find?_eq_some hg)).sublist (List.filter_sublist.map _)
    · simpa using instances_update hu hg rfl hmem

theorem name_upsertIn (svc : Service) (g : ServiceGroup) : (upsertIn svc g).name = g.name := by
  unfold upsertIn
  dsimp only
  split <;> rfl

/-- Whatever the group holds, `svc` replaces the entry under its own key. -/
theorem upsertIn_spec (svc : Service) (group : String) {services : List Service}
    (hn : (services.map instanceKey).Nodup) :
    (∀ s, s ∈ (upsertIn svc ⟨group, services⟩).services ↔
      s ∈ services ∧ isInstance svc.nodeId svc.name s = false ∨ s ∈ ({svc} : Set Service)) ∧
      ((upsertIn svc ⟨group, services⟩).services.map instanceKey).Nodup := by
  unfold upsertIn
  dsimp only
  cases ho : services.find? (isInstance svc.nodeId svc.name) with
  | some old => exact replace_instance (fun _ => svc) hn ho fun x _ hx => hx
  | none =>
    have hno := List.find?_eq_none.mp ho
    constructor
    · intro s
      simp only [List.mem_append, List.mem_singleton, Set.mem_singleton_iff]
      exact or_congr_left ⟨fun hs => ⟨hs, by simpa using hno s hs⟩, And.left⟩
    · rw [List.nodup_map_concat]
      exact ⟨fun x hx he => hno x hx (isInstance_iff.mpr he), hn⟩

theorem upsertService_leaves (hu : Unique dc) (h : dc.upsertService group svc = (.ok v, dc')) :
    Leaves dc dc' (insert svc (dc.others group svc.nodeId svc.name)) := by
  rw [← Set.union_singleton]
  unfold upsertService at h
  cases hg : dc.serviceGroups.find? (·.name == group) with
  | some g =>
    simp only [hg] at h
    obtain ⟨hmem, hn⟩ := upsertIn_spec svc g.name
      (hu.services g (List.mem_of_find?_eq_some hg))
    have hname := name_upsertIn svc g
    exact leaves_bump h ⟨unique_update hu hg hname hn, rfl, instances_update hu hg hname hmem⟩
  | none =>
    simp only [hg] at h
    have hno : ∀ x ∈ dc.serviceGroups, x.name ≠ group := by simpa using hg
    refine leaves_bump h ⟨⟨?_, ?_⟩, rfl, ?_⟩
    · rw [List.nodup_map_concat]
      exact ⟨hno, hu.groups⟩
    · intro x hx
      rcases List.mem_append.mp hx with hx | hx
      · exact hu.services x hx
      · obtain rfl := List.mem_singleton.mp hx
        simp
    · ext s
      simp only [Set.mem_ofPred_eq, Set.mem_union, Set.mem_singleton_iff, others, mem_instances,
        mem_entries, List.mem_append, List.mem_singleton]
      constructor
      · rintro ⟨n, x, hx | rfl, hxn, hs⟩
        · exact .inl ⟨n, ⟨x, hx, hxn, hs⟩, fun he => hno x hx (hxn.trans he.1)⟩
        · exact .inr (List.mem_singleton.mp hs)
      · rintro (⟨n, ⟨x, hx, hxn, hs⟩, -⟩ | rfl)
        · exact ⟨n, x, .inl hx, hxn, hs⟩
        · exact ⟨group, _, .inr rfl, rfl, List.mem_singleton.mpr rfl⟩

theorem renameService_leaves {source target : String} (hu : Unique dc)
    (h : dc.renameService group node source target = (.ok v, dc')) :
    ∃ old, (group, old) ∈ dc.entries ∧ isInstance node source old = true ∧ source ≠ target ∧
      Leaves dc dc' (insert { old with name := target } (dc.others group node source)) := by
  unfold renameService at h
  cases hg : dc.serviceGroups.find? (·.name == group) with
  | none => simp [hg] at h
  | some g =>
    simp only [hg] at h
    by_cases htaken : g.services.any (isInstance node target) = true
    · rw [if_pos htaken] at h
      cases h
    rw [if_neg htaken] at h
    cases ho : g.services.find? (isInstance node source) with
    | none =>
      rw [ho] at h
      cases h
    | some old =>
      rw [ho] at h
      have hold : isInstance node source old = true := List.find?_some ho
      have hkeys := hu.services g (List.mem_of_find?_eq_some hg)
      have hfree : ∀ x ∈ g.services,
          instanceKey x ≠ instanceKey { old with name := target } := by
        intro x hx he
        refine htaken (List.any_eq_true.mpr ⟨x, hx, isInstance_iff.mpr (he.trans ?_)⟩)
        have hnode := congrArg Prod.fst (isInstance_iff.mp hold)
        exact Prod.ext hnode rfl
      obtain ⟨hmem, hn⟩ := replace_instance (fun svc => { svc with name := target }) hkeys ho
        fun x hx he => absurd he (hfree x hx)
      have hmoved : source ≠ target := by
        rintro rfl
        exact htaken (List.any_eq_true.mpr ⟨old, List.mem_of_find?_eq_some ho, hold⟩)
      refine ⟨old, (mem_group hu hg).mpr (List.mem_of_find?_eq_some ho), hold, hmoved, ?_⟩
      rw [← Set.union_singleton]
      exact leaves_bump h ⟨unique_update hu hg rfl hn, rfl, instances_update hu hg rfl hmem⟩

/-! ## The routes of one service -/

variable {http : HttpCrate} {routes : List Route} {service : String}

theorem service_of_validateRoutes {i : ℕ}
    (h : validateRoutesFrom http service i routes = .ok ()) :
    ∀ r ∈ routes, r.service = service := by
  induction routes generalizing i with
  | nil => simp
  | cons r routes ih =>
    obtain ⟨_, hr, hrest⟩ := bind_ok.mp h
    rw [List.forall_mem_cons]
    refine ⟨?_, ih hrest⟩
    by_contra hn
    rw [validateRoute, if_pos hn] at hr
    cases hr

/-- The routes of `service` are the new ones, and those of other services are as before. -/
theorem filter_splice {old : List Route} (i : ℕ)
    (h : ∀ r ∈ routes, r.service = service) :
    let kept := old.filter (·.service != service)
    (kept.take i ++ routes ++ kept.drop i).filter (·.service == name) =
      if name = service then routes else old.filter (·.service == name) := by
  intro kept
  have hkept : (kept.take i).filter (·.service == name) ++
      (kept.drop i).filter (·.service == name) = kept.filter (·.service == name) := by
    rw [← List.filter_append, List.take_append_drop]
  rw [List.filter_append, List.filter_append]
  split_ifs with hn
  · subst hn
    have hnone : kept.filter (·.service == name) = [] := by
      simp [kept, List.filter_filter]
    rw [hnone, List.append_eq_nil_iff] at hkept
    rw [hkept.1, hkept.2, List.filter_eq_self.mpr (by simpa using h), List.nil_append,
      List.append_nil]
  · have hnone : routes.filter (·.service == name) = [] := by
      rw [List.filter_eq_nil_iff]
      intro r hr
      simp only [h r hr, beq_iff_eq]
      exact fun he => hn he.symm
    rw [hnone, List.append_nil, hkept, List.filter_filter]
    apply List.filter_congr
    intro r _
    by_cases hr : r.service = name
    · simp [hr, hn]
    · simp [hr]

theorem setRoutes_splice (h : dc.setRoutes http service routes = (.ok v, dc')) :
    (∀ r ∈ routes, dc.validateRouteTarget service = .ok ()) ∧
      validateRoutes http service routes = .ok () ∧ dc'.serviceGroups = dc.serviceGroups ∧
      ∃ i, dc'.routes = (dc.routes.filter (·.service != service)).take i ++ routes ++
        (dc.routes.filter (·.service != service)).drop i := by
  unfold setRoutes at h
  dsimp only at h
  split at h
  · cases h
  rename_i htarget
  split at h
  · cases h
  rename_i hroutes
  obtain ⟨-, rfl⟩ := Prod.mk.inj h
  refine ⟨fun r hr => ?_, hroutes, rfl, _, rfl⟩
  rwa [if_neg (by simp [List.ne_nil_of_mem hr])] at htarget

end DynamicConfig

end Stouter
