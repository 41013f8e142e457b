import Stouter.Gossip.Indexes
import Stouter.Subscribe.Headers
import Stouter.Tickets.Basic
import Stouter.Wire.Encoding

/-! # Route selection

The first route of a service that fits the request gets it, and a ticket below
the sum of its weights decides between its backends. The fallback to the first
backend indexes the list whether or not it is needed, so a route without
backends panics; only `validate` and `set_routes` keep such routes out.
-/

namespace Stouter

/-! ## What a route asks of a request -/

/-- Segment-aware prefix match: `/v2` matches `/v2` and `/v2/x`, not `/v20`. -/
def pathHasPrefix (path pre : String) : Bool :=
  match path.toList.dropPrefix? pre.toList with
  | some rest => rest.isEmpty || pre.toList.getLast? == some '/' || rest.head? == some '/'
  | none => false

def RouteMatch.matchesRequest (m : RouteMatch) (method path : String)
    (header : String → Option String) : Bool :=
  if !m.pathPrefix.all (pathHasPrefix path) then false
  else if !m.method.all (· == method) then false
  else m.headers.toList.all fun kv => header (Text.lower kv.1) == some kv.2

/-- The path is the prefix or goes on with a new segment. -/
def UnderPrefix (path pre : String) : Prop :=
  path = pre ∨ (pre.toList.getLast? = some '/' ∧ pre.toList <+: path.toList) ∨
    pre.toList ++ ['/'] <+: path.toList

theorem pathHasPrefix_iff (path pre : String) :
    pathHasPrefix path pre = true ↔ UnderPrefix path pre := by
  unfold pathHasPrefix UnderPrefix
  cases hd : path.toList.dropPrefix? pre.toList with
  | none =>
    have hno : ¬ pre.toList <+: path.toList := by
      rintro ⟨rest, hrest⟩
      have hsome : path.toList.dropPrefix? pre.toList = some rest :=
        List.dropPrefix?_eq_some_iff.mpr ⟨_, hrest.symm, beq_self_eq_true _⟩
      rw [hd] at hsome
      cases hsome
    simp only [Bool.false_eq_true, false_iff, not_or, not_and]
    refine ⟨?_, fun _ => hno, fun h => hno ((List.prefix_append _ _).trans h)⟩
    rintro rfl
    exact hno (List.prefix_refl _)
  | some rest =>
    obtain ⟨p, hpath, hp⟩ := List.dropPrefix?_eq_some_iff.mp hd
    obtain rfl := eq_of_beq hp
    have heq : path = pre ↔ rest = [] := by
      rw [← String.toList_inj, hpath, List.append_right_eq_self]
    rw [heq, hpath, List.prefix_append_right_inj]
    have hpre : pre.toList <+: pre.toList ++ rest := List.prefix_append _ _
    cases rest with
    | nil => simp
    | cons c rest => simp [hpre, List.cons_prefix_cons, @eq_comm _ '/' c]

/-- Prefix, method and header conditions, each where the route has one. -/
structure RouteMatch.Fits (m : RouteMatch) (method path : String) (headers : HeaderMap) : Prop where
  path : ∀ pre, m.pathPrefix = some pre → UnderPrefix path pre
  method : ∀ name, m.method = some name → name = method
  headers : ∀ name value, m.headers.get? name = some value →
    headers.getStr (Text.lower name) = some value

theorem matchesRequest_iff (m : RouteMatch) (method path : String) (headers : HeaderMap) :
    m.matchesRequest method path headers.getStr = true ↔ m.Fits method path headers := by
  have hpath : m.pathPrefix.all (pathHasPrefix path) = true ↔
      ∀ pre, m.pathPrefix = some pre → UnderPrefix path pre := by
    cases m.pathPrefix with
    | none => simp
    | some pre => simp [pathHasPrefix_iff]
  have hmethod : m.method.all (· == method) = true ↔
      ∀ name, m.method = some name → name = method := by
    cases m.method with
    | none => simp
    | some name => simp
  have hheaders : (m.headers.toList.all fun kv =>
      headers.getStr (Text.lower kv.1) == some kv.2) = true ↔
      ∀ name value, m.headers.get? name = some value →
        headers.getStr (Text.lower name) = some value := by
    simp only [List.all_eq_true, Prod.forall, Std.ExtTreeMap.mem_toList_iff_getElem?_eq_some,
      beq_iff_eq]
    rfl
  unfold RouteMatch.matchesRequest
  split_ifs with hp hm
  · refine ⟨nofun, fun h => ?_⟩
    rw [hpath.mpr h.path] at hp
    cases hp
  · refine ⟨nofun, fun h => ?_⟩
    rw [hmethod.mpr h.method] at hm
    cases hm
  · rw [Bool.not_eq_true', Bool.not_eq_false] at hp hm
    rw [hheaders]
    exact ⟨fun h => ⟨hpath.mp hp, hmethod.mp hm, h⟩, fun h => h.headers⟩

/-! ## Selection -/

/-- Indexing out of bounds. -/
inductive Panic
  | indexOutOfBounds (index len : ℕ)
  deriving DecidableEq, Repr

/-- The outcome of route selection for one request. -/
structure RoutedTo where
  label : String
  labels : Labels
  deriving DecidableEq

/-- The sum of the weights. It is a `u64` in the source; `Route.total_lt` says what it would take to
overflow it. -/
def Route.total (r : Route) : ℕ := (r.backends.map (·.weight.toNat)).sum

theorem Route.total_lt {r : Route} (h : r.backends.length ≤ 2 ^ 32) : r.total < 2 ^ 64 := by
  have hsum : ∀ backends : List RouteBackend,
      (backends.map (·.weight.toNat)).sum ≤ backends.length * (2 ^ 32 - 1) := by
    intro backends
    induction backends with
    | nil => simp
    | cons b backends ih =>
      have hweight := b.weight.toNat_lt
      simp only [List.map_cons, List.sum_cons, List.length_cons]
      omega
  have hle := hsum r.backends
  unfold Route.total
  omega

/-- Walk down the backends, taking their weights off the ticket. -/
def findBackend : ℕ → List RouteBackend → Option RouteBackend
  | _, [] => none
  | ticket, b :: backends =>
    if ticket < b.weight.toNat then some b else findBackend (ticket - b.weight.toNat) backends

/-- Find the first route matching the request and pick one of its backend subsets by weight, given
what the random source returns for the ticket. -/
def selectRoute (ticket : ℕ) (routes : List Route) (method path : String) (headers : HeaderMap) :
    Except Panic (Option RoutedTo) :=
  match routes.zipIdx.find? fun r => r.1.routeMatch.matchesRequest method path headers.getStr with
  | none => .ok none
  | some (route, index) =>
    let ticket := if route.total = 0 then 0 else ticket
    let found := findBackend ticket route.backends
    -- The argument of `unwrap_or` is evaluated whether or not it is needed.
    match route.backends[0]? with
    | none => .error (.indexOutOfBounds 0 route.backends.length)
    | some first => .ok (some ⟨route.label index, (found.getD first).labels⟩)

/-- The first of the routes that fits the request, with its position. -/
structure FirstFit (routes : List Route) (method path : String) (headers : HeaderMap) (k : ℕ)
    (r : Route) : Prop where
  at_k : routes[k]? = some r
  fits : r.routeMatch.Fits method path headers
  first : ∀ j < k, ∀ r', routes[j]? = some r' → ¬ r'.routeMatch.Fits method path headers

section

variable {routes : List Route} {method path : String} {headers : HeaderMap} {k ticket : ℕ}
  {r : Route}

theorem find?_eq_some_iff_firstFit :
    (routes.zipIdx.find? fun r => r.1.routeMatch.matchesRequest method path headers.getStr) =
      some (r, k) ↔ FirstFit routes method path headers k r := by
  rw [List.find?_eq_some_iff_getElem]
  constructor
  · rintro ⟨hp, i, hi, hget, hbefore⟩
    rw [List.getElem_zipIdx, Prod.mk.injEq, Nat.zero_add] at hget
    obtain ⟨hr, rfl⟩ := hget
    rw [List.length_zipIdx] at hi
    refine ⟨by rw [List.getElem?_eq_getElem hi, hr], (matchesRequest_iff _ _ _ _).mp hp, ?_⟩
    intro j hj r' hr' hfit
    have hno := hbefore j hj
    obtain ⟨hlen, hr'⟩ := List.getElem?_eq_some_iff.mp hr'
    simp [hr', (matchesRequest_iff _ _ _ _).mpr hfit] at hno
  · rintro ⟨hk, hfit, hfirst⟩
    obtain ⟨hlen, hr⟩ := List.getElem?_eq_some_iff.mp hk
    refine ⟨(matchesRequest_iff _ _ _ _).mpr hfit, k, by rwa [List.length_zipIdx], ?_, ?_⟩
    · rw [List.getElem_zipIdx, hr, Nat.zero_add]
    · intro j hj
      rw [List.getElem_zipIdx, Bool.not_eq_true', Bool.eq_false_iff]
      intro hm
      have hjlen : j < routes.length := by omega
      exact hfirst j hj _ (List.getElem?_eq_getElem hjlen) ((matchesRequest_iff _ _ _ _).mp hm)

theorem find?_eq_none_iff_no_fit :
    (routes.zipIdx.find? fun r => r.1.routeMatch.matchesRequest method path headers.getStr) =
      none ↔ ∀ r ∈ routes, ¬ r.routeMatch.Fits method path headers := by
  rw [List.find?_eq_none]
  simp only [matchesRequest_iff]
  constructor
  · intro h r hr
    obtain ⟨i, hi, rfl⟩ := List.getElem_of_mem hr
    exact h (routes[i], i) (List.mk_mem_zipIdx_iff_getElem?.mpr (by simp [hi]))
  · rintro h ⟨r, i⟩ hr
    exact h r (List.mem_of_getElem? (List.mk_mem_zipIdx_iff_getElem?.mp hr))

theorem no_fit_or_firstFit (routes : List Route) (method path : String) (headers : HeaderMap) :
    (∀ r ∈ routes, ¬ r.routeMatch.Fits method path headers) ∨
      ∃ k r, FirstFit routes method path headers k r := by
  cases hf : routes.zipIdx.find? fun r =>
      r.1.routeMatch.matchesRequest method path headers.getStr with
  | none => exact .inl (find?_eq_none_iff_no_fit.mp hf)
  | some rk => exact .inr ⟨rk.2, rk.1, find?_eq_some_iff_firstFit.mp hf⟩

theorem selectRoute_of_no_fit (ticket : ℕ)
    (h : ∀ r ∈ routes, ¬ r.routeMatch.Fits method path headers) :
    selectRoute ticket routes method path headers = .ok none := by
  rw [selectRoute, find?_eq_none_iff_no_fit.mpr h]

theorem selectRoute_of_firstFit (ticket : ℕ) (h : FirstFit routes method path headers k r) :
    selectRoute ticket routes method path headers =
      match r.backends[0]? with
      | none => .error (.indexOutOfBounds 0 r.backends.length)
      | some first => .ok (some ⟨r.label k,
          ((findBackend (if r.total = 0 then 0 else ticket) r.backends).getD first).labels⟩) := by
  rw [selectRoute, find?_eq_some_iff_firstFit.mpr h]

/-! ## The split -/

/-- The position of the backend at which the walk with this ticket stops. -/
def Route.chosen (r : Route) (ticket : ℕ) : Option ℕ :=
  Tickets.holder (r.backends.map (·.weight.toNat)) ticket

def Route.before (r : Route) (i : ℕ) : ℕ := ((r.backends.take i).map (·.weight.toNat)).sum

theorem findBackend_eq (ticket : ℕ) (backends : List RouteBackend) :
    findBackend ticket backends =
      (Tickets.holder (backends.map (·.weight.toNat)) ticket).bind (backends[·]?) := by
  induction backends generalizing ticket with
  | nil => rfl
  | cons b backends ih =>
    rw [List.map_cons]
    unfold findBackend Tickets.holder
    split_ifs with h
    · rfl
    · rw [ih]
      cases Tickets.holder (backends.map (·.weight.toNat)) (ticket - b.weight.toNat) <;> rfl

theorem Route.chosen_eq_some {i : ℕ} {b : RouteBackend} (hb : r.backends[i]? = some b) (t : ℕ) :
    r.chosen t = some i ↔ r.before i ≤ t ∧ t < r.before i + b.weight.toNat := by
  obtain ⟨hi, hb⟩ := List.getElem?_eq_some_iff.mp hb
  have hlen : i < (r.backends.map (·.weight.toNat)).length := by rwa [List.length_map]
  rw [chosen, Tickets.holder_eq_some, List.sum_take_succ _ _ hlen, ← List.map_take]
  simp only [hlen, true_and, List.getElem_map, hb]
  rfl

theorem Route.card_chosen {i : ℕ} {b : RouteBackend} (hb : r.backends[i]? = some b) :
    ((Finset.range r.total).filter fun t => r.chosen t = some i).card = b.weight.toNat := by
  obtain ⟨hi, hb⟩ := List.getElem?_eq_some_iff.mp hb
  have hlen : i < (r.backends.map (·.weight.toNat)).length := by rwa [List.length_map]
  have hcard := Tickets.card_holder hlen
  rwa [List.getElem_map, hb] at hcard

theorem Route.exists_chosen {t : ℕ} (ht : t < r.total) :
    ∃ i b, r.chosen t = some i ∧ r.backends[i]? = some b ∧ findBackend t r.backends = some b := by
  obtain ⟨i, hi⟩ := Tickets.exists_holder ht
  have hlen := (Tickets.holder_eq_some.mp hi).1
  rw [List.length_map] at hlen
  refine ⟨i, r.backends[i], hi, List.getElem?_eq_getElem hlen, ?_⟩
  rw [findBackend_eq, hi, Option.bind_some, List.getElem?_eq_getElem hlen]

theorem selectRoute_of_ticket {t : ℕ} (h : FirstFit routes method path headers k r)
    (ht : t < r.total) :
    ∃ i b, r.chosen t = some i ∧ r.backends[i]? = some b ∧
      selectRoute t routes method path headers = .ok (some ⟨r.label k, b.labels⟩) := by
  obtain ⟨i, b, hi, hb, hfind⟩ := Route.exists_chosen ht
  refine ⟨i, b, hi, hb, ?_⟩
  have hpos : r.total ≠ 0 := by omega
  have hlen : 0 < r.backends.length := by
    have hib := (List.getElem?_eq_some_iff.mp hb).1
    omega
  rw [selectRoute_of_firstFit t h, List.getElem?_eq_getElem hlen, if_neg hpos, hfind]
  rfl

/-- The first route that fits is used, and its tickets are split among its backends in blocks of
their weights, in order. -/
theorem selectRoute_split (routes : List Route) (method path : String) (headers : HeaderMap) :
    ((∀ r ∈ routes, ¬ r.routeMatch.Fits method path headers) →
      ∀ t, selectRoute t routes method path headers = .ok none) ∧
    ∀ k r, FirstFit routes method path headers k r → 0 < r.total →
      (∀ t < r.total, ∃ i b, r.chosen t = some i ∧ r.backends[i]? = some b ∧
        selectRoute t routes method path headers = .ok (some ⟨r.label k, b.labels⟩)) ∧
      ∀ i b, r.backends[i]? = some b →
        (∀ t, r.chosen t = some i ↔ r.before i ≤ t ∧ t < r.before i + b.weight.toNat) ∧
        ((Finset.range r.total).filter fun t => r.chosen t = some i).card = b.weight.toNat ∧
        (b.weight = 0 → ∀ t, r.chosen t ≠ some i) := by
  refine ⟨fun h t => selectRoute_of_no_fit t h, fun k r h _ => ?_⟩
  refine ⟨fun t ht => selectRoute_of_ticket h ht, fun i b hb => ?_⟩
  refine ⟨Route.chosen_eq_some hb, Route.card_chosen hb, fun hzero t ht => ?_⟩
  have hblock := (Route.chosen_eq_some hb t).mp ht
  rw [hzero] at hblock
  exact absurd hblock.2 (Nat.not_lt.mpr hblock.1)

/-- Nine of ten requests go to the first subset and none to the last. -/
def nineToOne : Route :=
  ⟨some "split", "api", ⟨none, none, ∅⟩,
    [⟨(∅ : Labels).insert "version" "v1", 9⟩, ⟨(∅ : Labels).insert "version" "v2", 1⟩,
      ⟨(∅ : Labels).insert "version" "v3", 0⟩]⟩

def canary : Route := ⟨some "canary", "api", ⟨some "/v2", none, ∅⟩, [⟨∅, 1⟩]⟩

theorem selectRoute_split_nineToOne :
    FirstFit [canary, nineToOne] "GET" "/v20" ⟨∅, by simp⟩ 1 nineToOne ∧ 0 < nineToOne.total ∧
      ((Finset.range nineToOne.total).filter fun t => nineToOne.chosen t = some 0).card = 9 := by
  have hfit : FirstFit [canary, nineToOne] "GET" "/v20" ⟨∅, by simp⟩ 1 nineToOne :=
    find?_eq_some_iff_firstFit.mp (by decide)
  have hpos : 0 < nineToOne.total := by decide
  have hsplit := (selectRoute_split [canary, nineToOne] "GET" "/v20" ⟨∅, by simp⟩).2 1 _ hfit hpos
  exact ⟨hfit, hpos, (hsplit.2 0 _ rfl).2.1⟩

/-! ## Panics -/

def routesOf (dc : DynamicConfig) (service : String) : List Route :=
  ((buildRouteIndex dc).lookup service).getD []

/-- Selection returns whatever the ticket, and a subset that it returns is a backend of the matched
route. -/
def Returns (routes : List Route) (method path : String) (headers : HeaderMap) : Prop :=
  ∀ ticket, ∃ outcome, selectRoute ticket routes method path headers = .ok outcome ∧
    ∀ picked, outcome = some picked → ∃ k r b, FirstFit routes method path headers k r ∧
      b ∈ r.backends ∧ picked = ⟨r.label k, b.labels⟩

theorem mem_of_findBackend {b : RouteBackend} {backends : List RouteBackend}
    (h : findBackend ticket backends = some b) : b ∈ backends := by
  rw [findBackend_eq] at h
  obtain ⟨i, -, hi⟩ := Option.bind_eq_some_iff.mp h
  exact List.mem_of_getElem? hi

/-- Selection returns exactly if the first route that fits, if there is one, has a backend. -/
theorem selectRoute_returns_iff (dc : DynamicConfig) (service method path : String)
    (headers : HeaderMap) :
    Returns (routesOf dc service) method path headers ↔
      ∀ k r, FirstFit (routesOf dc service) method path headers k r → r.backends ≠ [] := by
  constructor
  · intro h k r hfit hempty
    obtain ⟨outcome, ho, -⟩ := h 0
    rw [selectRoute_of_firstFit 0 hfit, hempty] at ho
    cases ho
  · intro h ticket
    rcases no_fit_or_firstFit (routesOf dc service) method path headers with hno | ⟨k, r, hfit⟩
    · exact ⟨none, selectRoute_of_no_fit ticket hno, nofun⟩
    · rw [selectRoute_of_firstFit ticket hfit]
      cases hb : r.backends with
      | nil => exact absurd hb (h k r hfit)
      | cons first rest =>
        refine ⟨_, rfl, fun picked hp => ⟨k, r, _, hfit, ?_, (Option.some.inj hp).symm⟩⟩
        rw [hb]
        cases hf : findBackend (if r.total = 0 then 0 else ticket) (first :: rest) with
        | none => exact List.mem_cons_self
        | some b => exact mem_of_findBackend hf

theorem backends_of_validateRoutes {http : HttpCrate} {service : String} {i : ℕ}
    (h : validateRoutesFrom http service i routes = .ok ()) : ∀ r ∈ routes, r.backends ≠ [] := by
  induction routes generalizing i with
  | nil => simp
  | cons r routes ih =>
    obtain ⟨_, hr, hrest⟩ := bind_ok.mp h
    rw [List.forall_mem_cons]
    refine ⟨fun hempty => ?_, ih hrest⟩
    simp only [validateRoute, hempty, List.isEmpty_nil, if_true] at hr
    split_ifs at hr

/-- A validated configuration never panics. -/
theorem returns_of_validate {http : HttpCrate} {cfg : Config} (hv : cfg.validate http = .ok ())
    (service method path : String) (headers : HeaderMap) :
    Returns (routesOf cfg.dynamicConfig service) method path headers := by
  obtain ⟨_, -, hc⟩ := ((Config.validate_ok_iff http cfg).mp hv).coupled
  rw [selectRoute_returns_iff]
  intro k r hfit
  have hmem := List.mem_of_getElem? hfit.at_k
  rw [routesOf, lookup_buildRouteIndex] at hmem
  split_ifs at hmem with hnone
  · simp at hmem
  · obtain ⟨hr, hservice⟩ := List.mem_filter.mp hmem
    exact backends_of_validateRoutes (hc.routes r hr) r (List.mem_filter.mpr ⟨hr, by simp⟩)

end

/-- A route without backends, as only a file or a peer can bring it in. -/
def noBackends : DynamicConfig :=
  ⟨1, [⟨"web", [⟨"api", "n1", 3000, [], 1, none, .http, none, none, ∅, ∅, none⟩]⟩],
    [⟨none, "api", ⟨none, none, ∅⟩, []⟩]⟩

/-- The configuration is read back from its serialized form and adopted from a peer, and then any
request to the service panics. -/
theorem noBackends_panics :
    dynamicConfig.Returns noBackends noBackends ∧
      (Store.merge noBackends true ⟨.default, some .default⟩).memory = noBackends ∧
      selectRoute 0 (routesOf noBackends "api") "GET" "/" ⟨∅, by simp⟩ =
        .error (.indexOutOfBounds 0 0) ∧
      ¬ Returns (routesOf noBackends "api") "GET" "/" ⟨∅, by simp⟩ := by
  have hpanic : selectRoute 0 (routesOf noBackends "api") "GET" "/" ⟨∅, by simp⟩ =
      .error (.indexOutOfBounds 0 0) := by decide
  refine ⟨dynamicConfig_lawful noBackends, by decide, hpanic, fun h => ?_⟩
  obtain ⟨outcome, ho, -⟩ := h 0
  rw [hpanic] at ho
  cases ho

end Stouter
