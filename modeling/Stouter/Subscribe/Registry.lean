import Stouter.Subscribe.SlotAccounting

/-! # The proxies of a subscriber

`HttpProxies` keeps one proxy, and with it one balancer, for each service.
Proxies are shared by reference: a service's listener, its connections and
requests, and every slot keep theirs alive after the map has dropped it. A
proxy is named here by its position in the list of all proxies ever created,
`holders` lists the references of running tasks and `slots` the live slots.
-/

namespace Stouter

/-- Per-service proxy state: the service it is for and its balancer. -/
structure HttpProxy where
  serviceName : String
  balancer : Balancer

/-- The subscriber's side of a daemon. -/
structure Subscriber where
  dynamicConfig : DynamicConfig
  configured : List String
  map : HashMap String ℕ
  proxies : List HttpProxy
  holders : List ℕ
  slots : List (ℕ × String)

/-- A pass of `manage_proxies` reads the configuration with `snapshot` and prunes the map with
`retain`. `get` is `run_proxy` starting up or a request of the `httpListen` dispatcher; `accept`
clones the reference of a task for a connection or request of its own, and `release` ends or
aborts a task. -/
inductive SubscriberAct
  | setConfig (dc : DynamicConfig)
  | snapshot
  | retain
  | get (service : String)
  | accept (k : ℕ)
  | release (k : ℕ)
  | pick (k : ℕ) (candidates : List Backend) (tried : List String) (now : Instant)
  | retainNodes (k : ℕ) (all : List Backend)
  | recordSuccess (k : ℕ) (id : String)
  | recordFailure (k : ℕ) (id : String) (now : Instant)
  | dropSlot (p : ℕ) (id : String)

namespace Subscriber

def new (dc : DynamicConfig) : Subscriber := ⟨dc, [], ∅, [], [], []⟩

/-- `HttpProxies::get`: the proxy of the service, created if the map has none. -/
def get (service : String) (s : Subscriber) : ℕ × Subscriber :=
  match s.map.lookup service with
  | some p => (p, s)
  | none => (s.proxies.length, { s with
      proxies := s.proxies ++ [⟨service, .new⟩]
      map := s.map.insert service s.proxies.length })

def retain (keep : String → Bool) (s : Subscriber) : Subscriber :=
  { s with map := HashMap.retain (fun name _ => keep name) s.map }

def setBalancer (p : ℕ) (b : Balancer) (s : Subscriber) : Subscriber :=
  { s with proxies := s.proxies.modify p fun x => { x with balancer := b } }

/-- A pick by a task that holds proxy `p`, with the slot it is granted. -/
def afterPick {n : ℕ} (p : ℕ) (s : Subscriber) : Pick n × Balancer → Subscriber
  | (.chosen _ slot, b) => { s.setBalancer p b with slots := (p, slot) :: s.slots }
  | (_, b) => s.setBalancer p b

def call (s : Subscriber) (k : ℕ) (f : ℕ → Balancer → Subscriber) : Option Subscriber :=
  s.holders[k]?.bind fun p => s.proxies[p]?.map fun x => f p x.balancer

def next (s : Subscriber) : SubscriberAct → Option Subscriber
  | .setConfig dc => some { s with dynamicConfig := dc }
  | .snapshot => some { s with configured := s.dynamicConfig.instances.map (·.name) }
  | .retain => some (s.retain fun name => s.configured.contains name)
  | .get service =>
    let (p, s) := s.get service
    some { s with holders := s.holders ++ [p] }
  | .accept k => s.holders[k]?.map fun p => { s with holders := s.holders ++ [p] }
  | .release k => some { s with holders := s.holders.eraseIdx k }
  | .pick k candidates tried now => s.call k fun p b => s.afterPick p (b.pick candidates tried now)
  | .retainNodes k all => s.call k fun p b => s.setBalancer p (b.retainNodes all)
  | .recordSuccess k id => s.call k fun p b => s.setBalancer p (b.recordSuccess id)
  | .recordFailure k id now => s.call k fun p b => s.setBalancer p (b.recordFailure id now).2
  | .dropSlot p id =>
    if (p, id) ∈ s.slots then
      s.proxies[p]?.map fun x =>
        { s.setBalancer p (x.balancer.dropSlot id) with slots := s.slots.erase (p, id) }
    else none

def system : Transition Subscriber SubscriberAct := Transition.ofNext (∃ dc, · = new dc) next

def serviceOf (s : Subscriber) (p : ℕ) : Option String := s.proxies[p]?.map (·.serviceName)

/-- The live slots on a node of a service, over all balancers. -/
def slotsOn (s : Subscriber) (service id : String) : ℕ :=
  s.slots.countP fun e => e.2 == id && s.serviceOf e.1 == some service

def InUse (s : Subscriber) (p : ℕ) : Prop := p ∈ s.holders ∨ ∃ id, (p, id) ∈ s.slots

/-- The runs in which a proxy is created for a service only when nothing uses an earlier proxy of
that service any more. -/
def oneProxy : Transition Subscriber SubscriberAct :=
  system.restrict fun s a _ => ∀ service, a = .get service → s.map.lookup service = none →
    ∀ p, s.serviceOf p = some service → ¬ s.InUse p

/-! ## The invariant -/

/-- Every balancer accounts for the slots it granted, the map files proxies under their service,
and a service has one proxy that the map, a task or a slot refers to. -/
structure Sound (s : Subscriber) : Prop where
  filed : ∀ name p, s.map.lookup name = some p → s.serviceOf p = some name
  used : ∀ p, s.InUse p → (s.serviceOf p).isSome = true
  accounts : ∀ p (x : HttpProxy), s.proxies[p]? = some x →
    x.balancer.Accounts fun id => s.slots.count (p, id)
  mapped : ∀ name p q, s.map.lookup name = some p → s.InUse q → s.serviceOf q = some name → q = p
  unique : ∀ p q, s.InUse p → s.InUse q → s.serviceOf p = s.serviceOf q → p = q

variable {s t : Subscriber} {a : SubscriberAct}

theorem sound_new (dc : DynamicConfig) : Sound (new dc) := by
  constructor <;> simp [new, InUse]

theorem serviceOf_setBalancer (p q : ℕ) (b : Balancer) :
    (s.setBalancer p b).serviceOf q = s.serviceOf q := by
  simp only [serviceOf, setBalancer, List.getElem?_modify]
  cases s.proxies[q]? with
  | none => rfl
  | some x => by_cases h : p = q <;> simp [h]

theorem Sound.shrink (hs : Sound s) (hp : t.proxies = s.proxies) (hsl : t.slots = s.slots)
    (hm : ∀ name p, t.map.lookup name = some p → s.map.lookup name = some p)
    (hh : ∀ p ∈ t.holders, p ∈ s.holders) : Sound t := by
  have hsvc : ∀ p, t.serviceOf p = s.serviceOf p := fun p => by rw [serviceOf, hp, serviceOf]
  have huse : ∀ p, t.InUse p → s.InUse p := fun p h => h.imp (hh p) fun h => by rwa [hsl] at h
  constructor
  · intro name p h
    rw [hsvc]
    exact hs.filed name p (hm name p h)
  · intro p h
    rw [hsvc]
    exact hs.used p (huse p h)
  · intro p x hx
    rw [hp] at hx
    rw [hsl]
    exact hs.accounts p x hx
  · intro name p q h hq hn
    rw [hsvc] at hn
    exact hs.mapped name p q (hm name p h) (huse q hq) hn
  · intro p q h hq he
    rw [hsvc, hsvc] at he
    exact hs.unique p q (huse p h) (huse q hq) he

theorem Sound.update {p : ℕ} {b : Balancer} (hs : Sound s) (slots : List (ℕ × String))
    (hp : s.InUse p)
    (hb : b.Accounts fun id => slots.count (p, id))
    (hsl : ∀ q id, q ≠ p → slots.count (q, id) = s.slots.count (q, id)) :
    Sound { s.setBalancer p b with slots := slots } := by
  have hsvc : ∀ q, ({ s.setBalancer p b with slots := slots } : Subscriber).serviceOf q =
      s.serviceOf q := fun q => serviceOf_setBalancer p q b
  have huse : ∀ q, ({ s.setBalancer p b with slots := slots } : Subscriber).InUse q →
      s.InUse q := by
    rintro q (hq | ⟨id, hq⟩)
    · exact .inl hq
    · by_cases hqp : q = p
      · exact hqp ▸ hp
      · have hpos := List.count_pos_iff.mpr hq
        rw [hsl q id hqp] at hpos
        exact .inr ⟨id, List.count_pos_iff.mp hpos⟩
  constructor
  · intro name q h
    rw [hsvc]
    exact hs.filed name q h
  · intro q hq
    rw [hsvc]
    exact hs.used q (huse q hq)
  · intro q y hy
    simp only [setBalancer, List.getElem?_modify] at hy
    obtain ⟨z, hz, rfl⟩ := Option.map_eq_some_iff.mp hy
    by_cases hqp : p = q
    · subst hqp
      simpa using hb
    · simp only [hqp, if_false]
      refine (hs.accounts q z hz).of_active rfl fun id => hsl q id fun h => hqp h.symm
  · intro name q r h hr hn
    rw [hsvc] at hn
    exact hs.mapped name q r h (huse r hr) hn
  · intro q r hq hr he
    rw [hsvc, hsvc] at he
    exact hs.unique q r (huse q hq) (huse r hr) he

theorem Sound.hold {name : String} {p : ℕ} (hs : Sound s) (hp : s.map.lookup name = some p) :
    Sound { s with holders := s.holders ++ [p] } := by
  have huse : ∀ q, ({ s with holders := s.holders ++ [p] } : Subscriber).InUse q →
      s.InUse q ∨ q = p := by
    rintro q (hq | hq)
    · exact (List.mem_append.mp hq).imp .inl List.mem_singleton.mp
    · exact .inl (.inr hq)
  have hsvc := hs.filed name p hp
  constructor
  · exact hs.filed
  · intro q hq
    rcases huse q hq with hq | rfl
    · exact hs.used q hq
    · exact Option.isSome_iff_exists.mpr ⟨name, hsvc⟩
  · exact hs.accounts
  · intro name' q r h hr hn
    rcases huse r hr with hr | rfl
    · exact hs.mapped name' q r h hr hn
    · obtain rfl : name = name' := Option.some.inj (hsvc.symm.trans hn)
      exact Option.some.inj (hp.symm.trans h)
  · intro q r hq hr he
    rcases huse q hq with hq' | hqp <;> rcases huse r hr with hr' | hrp
    · exact hs.unique q r hq' hr' he
    · subst hrp
      exact hs.mapped name r q hp hq' (he.trans hsvc)
    · subst hqp
      exact (hs.mapped name q r hp hr' (he.symm.trans hsvc)).symm
    · rw [hqp, hrp]

theorem Sound.create {service : String} (hs : Sound s)
    (hfree : ∀ p, s.serviceOf p = some service → ¬ s.InUse p) :
    Sound { s with
      proxies := s.proxies ++ [⟨service, .new⟩]
      map := s.map.insert service s.proxies.length } := by
  have hold : ∀ p, (s.serviceOf p).isSome = true →
      ((s.proxies ++ [⟨service, .new⟩])[p]?.map HttpProxy.serviceName) = s.serviceOf p := by
    intro p h
    have hlt : p < s.proxies.length := by simpa [serviceOf] using h
    rw [List.getElem?_append_left hlt, serviceOf]
  have hnew : ((s.proxies ++ [⟨service, .new⟩])[s.proxies.length]?.map HttpProxy.serviceName) =
      some service := by simp
  have hunused : ∀ id, s.slots.count (s.proxies.length, id) = 0 := by
    intro id
    rw [List.count_eq_zero]
    intro h
    simpa [serviceOf] using hs.used s.proxies.length (.inr ⟨id, h⟩)
  constructor
  · intro name p h
    rw [HashMap.lookup_insert_eq_ite] at h
    split_ifs at h with hn
    · obtain rfl := Option.some.inj h
      rw [hn]
      exact hnew
    · have hf := hs.filed name p h
      exact (hold p (by rw [hf]; rfl)).trans hf
  · intro p h
    have hsome := hs.used p h
    exact (congrArg Option.isSome (hold p hsome)).trans hsome
  · intro p x hx
    by_cases hp : p < s.proxies.length
    · exact hs.accounts p x (by rwa [List.getElem?_append_left hp] at hx)
    · obtain ⟨rfl, rfl⟩ : p = s.proxies.length ∧ x = ⟨service, .new⟩ := by
        rw [List.getElem?_append_right (by omega)] at hx
        have hz : p - s.proxies.length = 0 := by
          by_contra hne
          rw [List.getElem?_eq_none (by simp; omega)] at hx
          cases hx
        rw [hz] at hx
        exact ⟨by omega, (Option.some.inj hx).symm⟩
      exact Balancer.accounts_new hunused
  · intro name p q h hq hn
    have hq' : s.serviceOf q = some name := (hold q (hs.used q hq)).symm.trans hn
    rw [HashMap.lookup_insert_eq_ite] at h
    split_ifs at h with he
    · exact absurd hq (hfree q (he ▸ hq'))
    · exact hs.mapped name p q h hq hq'
  · intro p q hp hq he
    apply hs.unique p q hp hq
    rw [← hold p (hs.used p hp), ← hold q (hs.used q hq)]
    exact he

theorem Sound.call {k : ℕ} {f : Balancer → Balancer} (hs : Sound s)
    (hf : ∀ b, (f b).active = b.active)
    (h : s.call k (fun p b => s.setBalancer p (f b)) = some t) : Sound t := by
  obtain ⟨p, hp, hm⟩ := Option.bind_eq_some_iff.mp h
  obtain ⟨x, hx, rfl⟩ := Option.map_eq_some_iff.mp hm
  refine hs.update s.slots (.inl (List.mem_of_getElem? hp)) ?_ fun _ _ _ => rfl
  exact (hs.accounts p x hx).of_active (hf _) fun _ => rfl

theorem count_cons_pair (p q : ℕ) (id k : String) (slots : List (ℕ × String)) :
    ((p, id) :: slots).count (q, k) = slots.count (q, k) + if q = p ∧ k = id then 1 else 0 := by
  rw [List.count_cons]
  simp only [beq_iff_eq, Prod.mk.injEq, eq_comm (a := q), eq_comm (a := k)]

theorem Sound.step (hs : Sound s) (h : oneProxy.step s a t) : Sound t := by
  obtain ⟨hn : next s a = some t, hfree⟩ := h
  cases a with
  | setConfig dc =>
    obtain rfl := Option.some.inj hn
    exact hs.shrink rfl rfl (fun _ _ h => h) fun _ h => h
  | snapshot =>
    obtain rfl := Option.some.inj hn
    exact hs.shrink rfl rfl (fun _ _ h => h) fun _ h => h
  | retain =>
    obtain rfl := Option.some.inj hn
    refine hs.shrink rfl rfl (fun name p h => ?_) fun _ h => h
    rw [retain, HashMap.lookup_retain] at h
    exact (Option.filter_eq_some_iff.mp h).1
  | get service =>
    simp only [next, get] at hn
    cases hl : s.map.lookup service with
    | some p =>
      rw [hl] at hn
      obtain rfl := Option.some.inj hn
      exact hs.hold hl
    | none =>
      rw [hl] at hn
      obtain rfl := Option.some.inj hn
      exact (hs.create (hfree service rfl hl)).hold (AList.lookup_insert _)
  | accept k =>
    obtain ⟨p, hp, rfl⟩ := Option.map_eq_some_iff.mp hn
    refine hs.shrink rfl rfl (fun _ _ h => h) fun q hq => ?_
    rcases List.mem_append.mp hq with hq | hq
    · exact hq
    · obtain rfl := List.mem_singleton.mp hq
      exact List.mem_of_getElem? hp
  | release k =>
    obtain rfl := Option.some.inj hn
    exact hs.shrink rfl rfl (fun _ _ h => h) fun _ h => List.mem_of_mem_eraseIdx h
  | pick k candidates tried now =>
    obtain ⟨p, hp, hm⟩ := Option.bind_eq_some_iff.mp hn
    obtain ⟨x, hx, rfl⟩ := Option.map_eq_some_iff.mp hm
    dsimp only
    have hin : s.InUse p := .inl (List.mem_of_getElem? hp)
    have hacc := hs.accounts p x hx
    rcases x.balancer.pick_cases candidates tried now with ⟨_, h⟩ | ⟨_, _, h⟩ | ⟨i, _, cur, h⟩
    · rw [h]
      exact hs.update s.slots hin hacc fun _ _ _ => rfl
    · rw [h]
      exact hs.update s.slots hin hacc fun _ _ _ => rfl
    · rw [h]
      refine hs.update _ hin (hacc.grant rfl fun k => ?_) fun q id hq => ?_
      · simp only [count_cons_pair, true_and]
        split_ifs <;> rfl
      · simp [count_cons_pair, hq]
  | retainNodes k all => exact hs.call (f := (·.retainNodes all)) (fun _ => rfl) hn
  | recordSuccess k id => exact hs.call (f := (·.recordSuccess id)) (fun _ => rfl) hn
  | recordFailure k id now =>
    exact hs.call (f := fun b => (b.recordFailure id now).2)
      (Balancer.recordFailure_active id now) hn
  | dropSlot p id =>
    unfold next at hn
    dsimp only at hn
    split_ifs at hn with hmem
    obtain ⟨x, hx, rfl⟩ := Option.map_eq_some_iff.mp hn
    refine hs.update _ (.inr ⟨id, hmem⟩)
      ((hs.accounts p x hx).dropSlot (List.count_pos_iff.mpr hmem) fun k => ?_) fun q k hq => ?_
    · simp only [List.count_erase, beq_iff_eq, Prod.mk.injEq, true_and, eq_comm (a := k)]
      split_ifs <;> rfl
    · exact List.count_erase_of_ne (by simp [hq])

theorem sound_of_reachable (h : oneProxy.Reachable s) : Sound s := by
  refine h.invariant (I := Sound) ?_ fun _ _ _ hs h => hs.step h
  rintro s ⟨dc, rfl⟩
  exact sound_new dc

theorem Sound.slotsOn_le {p : ℕ} {service : String} (hs : Sound s) (hp : s.InUse p)
    (hsvc : s.serviceOf p = some service) (id : String) :
    s.slotsOn service id ≤ s.slots.count (p, id) := by
  apply List.countP_mono_left
  intro e he h
  obtain ⟨q, k⟩ := e
  simp only [Bool.and_eq_true, beq_iff_eq] at h ⊢
  obtain ⟨rfl, hq⟩ := h
  rw [hs.unique q p (.inr ⟨k, he⟩) hp (hq.trans hsvc.symm)]

/-- In runs that create a proxy only when no earlier one of its service is in use, a slot granted
under a limit is within that limit over all balancers of the subscriber. -/
theorem cap_of_one_proxy {k p : ℕ} {x : HttpProxy} {candidates : List Backend}
    {tried : List String} {now : Instant} {i : Fin candidates.length} {slot : String} {max : UInt32}
    (h : oneProxy.Reachable s) (hk : s.holders[k]? = some p) (hx : s.proxies[p]? = some x)
    (hpick : (x.balancer.pick candidates tried now).1 = .chosen i slot)
    (hmax : (candidates.get i).maxConnections = some max)
    (ht : next s (.pick k candidates tried now) = some t) :
    t.slotsOn x.serviceName slot ≤ max.toNat := by
  have hs := sound_of_reachable h
  have hstep : Sound t := hs.step (a := .pick k candidates tried now) ⟨ht, by simp⟩
  obtain ⟨he, rfl⟩ := Balancer.pick_chosen hpick
  have hroom := (Balancer.mem_openSet.mp (Balancer.eligible_subset he)).2
  have hlt := Balancer.lt_of_hasRoom hroom hmax
  rw [(hs.accounts p x hx).activeOn] at hlt
  have htset : t = s.afterPick p (x.balancer.pick candidates tried now) := by
    simpa [next, call, hk, hx] using ht.symm
  rcases hp : x.balancer.pick candidates tried now with ⟨_ | _ | _, b⟩ <;>
    rw [hp] at hpick <;> cases hpick
  rw [hp] at htset
  have hslots : t.slots = (p, (candidates.get i).node.id) :: s.slots := by rw [htset]; rfl
  have hin : t.InUse p := .inl (by rw [htset]; exact List.mem_of_getElem? hk)
  have hsvc : t.serviceOf p = some x.serviceName := by
    rw [htset]
    exact (serviceOf_setBalancer p p b).trans (by rw [serviceOf, hx]; rfl)
  calc t.slotsOn x.serviceName (candidates.get i).node.id
      ≤ t.slots.count (p, (candidates.get i).node.id) := hstep.slotsOn_le hin hsvc _
    _ = s.slots.count (p, (candidates.get i).node.id) + 1 := by rw [hslots, List.count_cons_self]
    _ ≤ max.toNat := hlt

def limitedApi : DynamicConfig :=
  ⟨1, [⟨"g", [⟨"api", "a", 80, [], 1, some 1, .http, none, none, ∅, ∅, none⟩]⟩], []⟩

def apiOnA : Backend := ⟨⟨"a", "", none, none, .default⟩, 1, some 1, none, ∅⟩

def requested : Subscriber := Transition.run next (new limitedApi) [.get "api"]

theorem cap_requested :
    oneProxy.Reachable requested ∧
      ∃ t, next requested (.pick 0 [apiOnA] [] 5) = some t ∧ t.slotsOn "api" "a" ≤ 1 := by
  have hr : oneProxy.Reachable requested :=
    (Transition.Reachable.of_init (S := oneProxy) ⟨limitedApi, rfl⟩).snoc (a := .get "api")
      ⟨rfl, by rintro service ⟨⟩ _ p hp; simp [serviceOf, new] at hp⟩
  have hpick : (Balancer.new.pick [apiOnA] [] 5).1 = .chosen 0 "a" := by decide
  exact ⟨hr, _, rfl, cap_of_one_proxy (k := 0) (x := ⟨"api", .new⟩) hr rfl rfl hpick rfl rfl⟩

/-- A pass took its snapshot before `api` was configured. A request then created the proxy of
`api` and holds the only slot on `a` when the pass prunes the map, and the next request finds no
proxy and creates a second one. -/
def pruned : Subscriber :=
  Transition.run next (new .default)
    [.snapshot, .setConfig limitedApi, .get "api", .pick 0 [apiOnA] [] 5, .retain, .get "api"]

/-- `api` is granted a second slot on `a` under a limit of one. -/
theorem exceeded_pruned :
    system.Reachable pruned ∧ pruned.dynamicConfig = limitedApi ∧
      apiOnA.maxConnections = some 1 ∧ pruned.slotsOn "api" "a" = 1 ∧
      ∃ t, next pruned (.pick 1 [apiOnA] [] 6) = some t ∧ t.slotsOn "api" "a" = 2 :=
  ⟨⟨_, ⟨.default, rfl⟩, Transition.reaches_run rfl⟩, rfl, rfl, by decide, _, rfl, by decide⟩

end Subscriber

end Stouter
