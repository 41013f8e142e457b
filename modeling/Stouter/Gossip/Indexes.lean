import Stouter.Config.AdminValidity
import Stouter.Gossip.IndexCoherence

/-! # What the indexes hold

The route index has the routes of each service in the order of the
configuration. Setting the routes of a service puts them where its first route
was and leaves the routes of the others in their order, so it replaces one
entry of the index.
-/

namespace Stouter

section RouteIndex

variable {dc dc' : DynamicConfig} {service name : String} {routes : List Route} {http : HttpCrate}

theorem lookup_foldl_route (l : List Route) (idx : HashMap String (List Route)) :
    (l.foldl (fun idx route =>
        idx.insert route.service ((idx.lookup route.service).getD [] ++ [route])) idx).lookup name =
      if l.filter (·.service == name) = [] then idx.lookup name
      else some ((idx.lookup name).getD [] ++ l.filter (·.service == name)) := by
  induction l generalizing idx with
  | nil => rfl
  | cons r l ih =>
    rw [List.foldl_cons, ih, HashMap.lookup_insert_eq_ite]
    by_cases hr : r.service = name
    · subst hr
      simp only [List.filter_cons, beq_self_eq_true, if_true, Option.getD_some, List.append_assoc,
        List.singleton_append, reduceCtorEq, if_false]
      split_ifs with hl
      · rw [hl]
      · rfl
    · have hne : (r.service == name) = false := beq_eq_false_iff_ne.mpr hr
      have hne' : name ≠ r.service := fun h => hr h.symm
      rw [if_neg hne', List.filter_cons_of_neg (by simp [hne])]

/-- The entry of a service is the list of its routes, in order; without routes there is none. -/
theorem lookup_buildRouteIndex (dc : DynamicConfig) (name : String) :
    (buildRouteIndex dc).lookup name =
      if dc.routes.filter (·.service == name) = [] then none
      else some (dc.routes.filter (·.service == name)) := by
  rw [buildRouteIndex, lookup_foldl_route]
  rfl

end RouteIndex

namespace DynamicConfig

variable {dc dc' : DynamicConfig} {service service' : String} {routes routes' : List Route}
  {http : HttpCrate}

/-- The checks of `setRoutes`. -/
def Accepts (http : HttpCrate) (dc : DynamicConfig) (service : String) (routes : List Route) :
    Prop :=
  (routes ≠ [] → dc.validateRouteTarget service = .ok ()) ∧
    validateRoutes http service routes = .ok ()

/-- Where the first route of a service is, or the end of the others if it has none. -/
def position (old : List Route) (service : String) : ℕ :=
  (old.findIdx? (·.service == service)).getD (old.filter (·.service != service)).length

/-- The list with the routes of one service replaced. -/
def resplice (old : List Route) (service : String) (routes : List Route) : List Route :=
  let kept := old.filter (·.service != service)
  kept.take (position old service) ++ routes ++ kept.drop (position old service)

theorem filter_split (old : List Route) (service : String) :
    ∃ pre post, old.filter (·.service != service) = pre ++ post ∧
      pre.length = position old service ∧
      ((∀ r ∈ old, r.service ≠ service) ∧ post = [] ∨
        ∃ r rest, r.service = service ∧ old = pre ++ r :: rest) := by
  cases hf : old.findIdx? (·.service == service) with
  | none =>
    have hno : ∀ r ∈ old, r.service ≠ service := by
      simpa using List.findIdx?_eq_none_iff.mp hf
    refine ⟨old.filter (·.service != service), [], by simp, ?_, .inl ⟨hno, rfl⟩⟩
    rw [position, hf, Option.getD_none]
  | some i =>
    obtain ⟨hi, hr, hbefore⟩ := List.findIdx?_eq_some_iff_getElem.mp hf
    have hold : old = old.take i ++ old[i] :: old.drop (i + 1) := by simp
    have hkept : (old.take i).filter (·.service != service) = old.take i := by
      refine List.filter_eq_self.mpr fun r hr => ?_
      obtain ⟨j, hj, rfl⟩ := List.mem_take_iff_getElem.mp hr
      simpa using hbefore j (by omega)
    refine ⟨old.take i, (old.drop (i + 1)).filter (·.service != service), ?_, ?_, .inr ?_⟩
    · conv_lhs => rw [hold]
      rw [List.filter_append, hkept, List.filter_cons_of_neg (by simpa using hr)]
    · rw [position, hf, Option.getD_some, List.length_take]
      omega
    · exact ⟨old[i], old.drop (i + 1), by simpa using hr, hold⟩

theorem resplice_eq (old : List Route) (service : String) (routes : List Route) :
    ∃ pre post, old.filter (·.service != service) = pre ++ post ∧
      pre.length = position old service ∧ resplice old service routes = pre ++ routes ++ post := by
  obtain ⟨pre, post, hkept, hlen, _⟩ := filter_split old service
  refine ⟨pre, post, hkept, hlen, ?_⟩
  rw [resplice, hkept, ← hlen, List.take_left, List.drop_left]

theorem position_le (old : List Route) (service : String) :
    position old service ≤ (old.filter (·.service != service)).length := by
  obtain ⟨pre, post, hkept, hlen, _⟩ := filter_split old service
  rw [hkept, ← hlen, List.length_append]
  omega

theorem setRoutes_cases (http : HttpCrate) (dc : DynamicConfig) (service : String)
    (routes : List Route) :
    (¬Accepts http dc service routes ∧
      ∃ err, dc.setRoutes http service routes = (.error err, dc)) ∨
    (Accepts http dc service routes ∧
      dc.setRoutes http service routes =
        bump { dc with routes := resplice dc.routes service routes }) := by
  have htarget : (if routes.isEmpty then .ok () else dc.validateRouteTarget service) = .ok () ↔
      (routes ≠ [] → dc.validateRouteTarget service = .ok ()) := by
    by_cases he : routes = [] <;> simp [he]
  unfold setRoutes Accepts
  dsimp only
  rw [← htarget]
  clear htarget
  cases (if routes.isEmpty then .ok () else dc.validateRouteTarget service) with
  | error msg => exact .inl ⟨by simp, _, rfl⟩
  | ok =>
    cases validateRoutes http service routes with
    | error msg => exact .inl ⟨by simp, _, rfl⟩
    | ok =>
      refine .inr ⟨⟨rfl, rfl⟩, ?_⟩
      rw [resplice, ← Nat.min_eq_left (position_le dc.routes service)]
      rfl

theorem accepts_congr (h : dc'.serviceGroups = dc.serviceGroups) :
    Accepts http dc' service routes ↔ Accepts http dc service routes := by
  unfold Accepts validateRouteTarget instances
  rw [h]

theorem Accepts.of_service (h : Accepts http dc service routes) :
    ∀ r ∈ routes, r.service = service :=
  service_of_validateRoutes h.2

section Resplice

variable (old : List Route) (h : ∀ r ∈ routes, r.service = service)

include h

theorem filter_resplice (name : String) :
    (resplice old service routes).filter (·.service == name) =
      if name = service then routes else old.filter (·.service == name) :=
  filter_splice _ h

theorem others_resplice :
    (resplice old service routes).filter (·.service != service) =
      old.filter (·.service != service) := by
  obtain ⟨pre, post, hkept, _, heq⟩ := resplice_eq old service routes
  have hnone : routes.filter (·.service != service) = [] := by
    rw [List.filter_eq_nil_iff]
    intro r hr
    simp [h r hr]
  have hself : (old.filter (·.service != service)).filter (·.service != service) =
      old.filter (·.service != service) := by
    simp [List.filter_filter]
  rw [heq, List.filter_append, List.filter_append, hnone, List.append_nil, ← List.filter_append,
    ← hkept, hself]

theorem resplice_resplice :
    resplice (resplice old service routes) service routes = resplice old service routes := by
  obtain ⟨pre, post, hkept, hlen, heq⟩ := resplice_eq old service routes
  obtain ⟨pre', post', hkept', hlen', heq'⟩ :=
    resplice_eq (resplice old service routes) service routes
  rw [others_resplice old h, hkept] at hkept'
  cases hroutes : routes with
  | nil =>
    subst hroutes
    rw [heq', heq, List.append_nil, List.append_nil, ← hkept']
  | cons r rest =>
    -- The first route of the service is the first new one.
    have hpre : ∀ x ∈ pre, x.service ≠ service := by
      intro x hx
      have hmem : x ∈ old.filter (·.service != service) := by
        rw [hkept]
        exact List.mem_append_left _ hx
      simpa using (List.mem_filter.mp hmem).2
    have hpos : position (resplice old service routes) service = pre.length := by
      have hr : r.service = service := h r (by simp [hroutes])
      have hnone : pre.findIdx? (·.service == service) = none := by
        rw [List.findIdx?_eq_none_iff]
        intro x hx
        simpa using hpre x hx
      rw [position, heq, hroutes, List.append_assoc, List.findIdx?_append, hnone, List.cons_append,
        List.findIdx?_cons]
      simp [hr]
    have hsplit : pre = pre' ∧ post = post' :=
      List.append_inj hkept' (by rw [hlen', hpos])
    rw [← hroutes, heq', heq, hsplit.1, hsplit.2]

end Resplice

theorem isOk_setRoutes :
    (dc.setRoutes http service routes).1.isOk = true ↔ Accepts http dc service routes := by
  rcases setRoutes_cases http dc service routes with ⟨hno, err, h⟩ | ⟨hok, h⟩
  · rw [h]
    exact ⟨fun hc => absurd hc (by simp [Except.isOk, Except.toBool]), fun hc => absurd hc hno⟩
  · rw [h]
    exact ⟨fun _ => hok, fun _ => rfl⟩

theorem serviceGroups_setRoutes (http : HttpCrate) (dc : DynamicConfig) (service : String)
    (routes : List Route) :
    (dc.setRoutes http service routes).2.serviceGroups = dc.serviceGroups := by
  rcases setRoutes_cases http dc service routes with ⟨_, _, h⟩ | ⟨_, h⟩
  · rw [h]
  · rw [h]
    rfl

theorem lookup_resplice (hs : ∀ r ∈ routes, r.service = service)
    (hr : dc'.routes = resplice dc.routes service routes) (name : String) :
    (buildRouteIndex dc').lookup name =
      if name = service then (if routes = [] then none else some routes)
      else (buildRouteIndex dc).lookup name := by
  rw [lookup_buildRouteIndex, lookup_buildRouteIndex, hr, filter_resplice dc.routes hs name]
  by_cases hn : name = service
  · rw [if_pos hn, if_pos hn]
  · rw [if_neg hn, if_neg hn]

theorem lookup_setRoutes (http : HttpCrate) (dc : DynamicConfig) (service : String)
    (routes : List Route) (name : String) :
    (buildRouteIndex (dc.setRoutes http service routes).2).lookup name =
      if (dc.setRoutes http service routes).1.isOk = true ∧ name = service then
        (if routes = [] then none else some routes)
      else (buildRouteIndex dc).lookup name := by
  rcases setRoutes_cases http dc service routes with ⟨_, err, h⟩ | ⟨hok, h⟩
  · rw [h, if_neg]
    simp [Except.isOk, Except.toBool]
  · have hlookup : (buildRouteIndex (dc.setRoutes http service routes).2).lookup name = _ :=
      lookup_resplice hok.of_service (by rw [h]; rfl) name
    rw [hlookup, isOk_setRoutes.mpr hok]
    simp

theorem isOk_setRoutes_after (http : HttpCrate) (dc : DynamicConfig) (service service' : String)
    (routes routes' : List Route) :
    ((dc.setRoutes http service routes).2.setRoutes http service' routes').1.isOk =
      (dc.setRoutes http service' routes').1.isOk := by
  rw [Bool.eq_iff_iff, isOk_setRoutes, isOk_setRoutes]
  exact accepts_congr (serviceGroups_setRoutes http dc service routes)

/-- Setting the routes of a service replaces its entry of the route index and nothing else of it:
the new routes are one block where its first route was, the other routes keep their order, and a
call that fails changes nothing. Calls for different services commute, and repeating a call only
counts up the version. -/
theorem routes_replaced_per_service (http : HttpCrate) (dc : DynamicConfig) (service : String)
    (routes : List Route) (hv : dc.version.toNat + 1 < 2 ^ 64) :
    (∀ err dc', dc.setRoutes http service routes = (.error err, dc') → dc' = dc) ∧
    (∀ v dc', dc.setRoutes http service routes = (.ok v, dc') →
      (∀ name, (buildRouteIndex dc').lookup name =
        if name = service then (if routes = [] then none else some routes)
        else (buildRouteIndex dc).lookup name) ∧
      dc'.routes.filter (·.service != service) = dc.routes.filter (·.service != service) ∧
      (∃ pre post, dc'.routes = pre ++ routes ++ post ∧
        dc.routes.filter (·.service != service) = pre ++ post ∧
        pre.length = position dc.routes service) ∧
      dc'.serviceGroups = dc.serviceGroups ∧ v = dc'.version ∧
      dc'.version.toNat = dc.version.toNat + 1 ∧
      dc'.setRoutes http service routes =
        (.ok (dc'.version + 1), { dc' with version := dc'.version + 1 })) ∧
    ∀ service' routes', service' ≠ service →
      ((dc.setRoutes http service routes).2.setRoutes http service' routes').1.isOk =
          (dc.setRoutes http service' routes').1.isOk ∧
        ((dc.setRoutes http service' routes').2.setRoutes http service routes).1.isOk =
          (dc.setRoutes http service routes).1.isOk ∧
        ∀ name,
          (buildRouteIndex ((dc.setRoutes http service routes).2.setRoutes http service'
            routes').2).lookup name =
          (buildRouteIndex ((dc.setRoutes http service' routes').2.setRoutes http service
            routes).2).lookup name := by
  refine ⟨?_, ?_, ?_⟩
  · intro err dc' h
    rcases setRoutes_cases http dc service routes with ⟨_, _, hr⟩ | ⟨_, hr⟩
    · rw [hr] at h
      exact (Prod.mk.inj h).2.symm
    · rw [hr] at h
      cases h
  · intro v dc' h
    rcases setRoutes_cases http dc service routes with ⟨_, _, hr⟩ | ⟨hok, hr⟩
    · rw [hr] at h
      cases h
    rw [hr] at h
    obtain ⟨hversion, rfl⟩ := Prod.mk.inj h
    obtain rfl := Except.ok.inj hversion
    obtain ⟨pre, post, hkept, hlen, heq⟩ := resplice_eq dc.routes service routes
    refine ⟨lookup_resplice hok.of_service rfl, others_resplice dc.routes hok.of_service,
      ⟨pre, post, heq, hkept, hlen⟩, rfl, rfl, ?_, ?_⟩
    · exact toNat_version_succ hv
    · have hagain : Accepts http { dc with
          version := dc.version + 1, routes := resplice dc.routes service routes }
          service routes :=
        (accepts_congr rfl).mpr hok
      rcases setRoutes_cases http { dc with
          version := dc.version + 1, routes := resplice dc.routes service routes }
          service routes with ⟨hno, _⟩ | ⟨_, hr'⟩
      · exact absurd hagain hno
      · rw [hr']
        simp only [resplice_resplice dc.routes hok.of_service]
        rfl
  · intro service' routes' hne
    have hafter := isOk_setRoutes_after http dc service service' routes routes'
    have hafter' := isOk_setRoutes_after http dc service' service routes' routes
    refine ⟨hafter, hafter', ?_⟩
    intro name
    rw [lookup_setRoutes, lookup_setRoutes, lookup_setRoutes, lookup_setRoutes, hafter, hafter']
    by_cases hn : name = service
    · have hn' : name ≠ service' := fun h => hne (h.symm.trans hn)
      simp [hn']
    · simp [hn]

def catchAll (service : String) : Route := ⟨none, service, ⟨none, none, ∅⟩, [⟨∅, 1⟩]⟩

def interleaved : DynamicConfig :=
  ⟨5, [⟨"web", [apiService, { apiService with name := "shop" }]⟩],
    [catchAll "api", catchAll "shop", catchAll "api"]⟩

theorem routes_replaced_per_service_interleaved :
    (interleaved.setRoutes plainHttp "api" [catchAll "api"]).1 = .ok 6 ∧
      (buildRouteIndex (interleaved.setRoutes plainHttp "api" [catchAll "api"]).2).lookup "api" =
        some [catchAll "api"] ∧
      (buildRouteIndex (interleaved.setRoutes plainHttp "api" [catchAll "api"]).2).lookup "shop" =
        some [catchAll "shop"] := by
  obtain ⟨_, hok, _⟩ := routes_replaced_per_service plainHttp interleaved "api" [catchAll "api"]
    (by decide)
  obtain ⟨hindex, _⟩ := hok 6 (interleaved.setRoutes plainHttp "api" [catchAll "api"]).2 rfl
  exact ⟨rfl, hindex "api", hindex "shop"⟩

end DynamicConfig

end Stouter
