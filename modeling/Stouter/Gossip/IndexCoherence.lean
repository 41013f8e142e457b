import Stouter.Gossip.Store
import Stouter.Lists.Basic
import Stouter.Maps.Basic
import Stouter.Transition.Basic

/-! # The service and route index

Every change of the dynamic configuration is followed by a rebuild of the two
indexes in a second critical section. A change and its rebuild are separate
steps here, and so are the two stores of a rebuild, which runs under the read
lock and can overlap other rebuilds but no change. The timeout of the sync loop
can drop an outbound sync while it waits for that lock.
-/

namespace Stouter

def buildServiceIndex (dc : DynamicConfig) : HashMap (String × String) Service :=
  dc.serviceGroups.foldl (fun idx group =>
    group.services.foldl (fun idx svc => idx.insert (svc.nodeId, svc.name) svc) idx) ∅

def buildRouteIndex (dc : DynamicConfig) : HashMap String (List Route) :=
  dc.routes.foldl (fun idx route =>
    idx.insert route.service ((idx.lookup route.service).getD [] ++ [route])) ∅

/-- How far a task has come with the rebuild it owes. -/
inductive Rebuild
  | waiting (outbound : Bool)
  | locked
  | storedIndex
  deriving DecidableEq, Repr

/-- The configuration of a daemon, its indexes, and the rebuilds that live tasks still have to
run. -/
structure Indexed where
  store : Store
  serviceIndex : HashMap (String × String) Service
  routes : HashMap String (List Route)
  rebuilds : List Rebuild

inductive IndexAct
  | merge (outbound : Bool) (config : DynamicConfig) (saved : Bool)
  | admin (op : AdminOp) (saved : Bool)
  | poll (loaded saved : Bool)
  | edit (file : Option DynamicConfig)
  | lock (k : ℕ)
  | storeIndex (k : ℕ)
  | storeRoutes (k : ℕ)
  | timeout (k : ℕ)

namespace Indexed

def unlocked (s : Indexed) : Bool := s.rebuilds.all fun r => r matches .waiting _

/-- A section under the write lock, with the rebuild that follows it if it changed something. -/
def write (s : Indexed) (store : Store) (rebuild : Option Rebuild) : Option Indexed :=
  if s.unlocked then some { s with store, rebuilds := s.rebuilds ++ rebuild.toList } else none

def next (http : HttpCrate) (s : Indexed) : IndexAct → Option Indexed
  | .merge outbound config saved =>
    s.write (s.store.merge config saved)
      (if config.version > s.store.memory.version then some (.waiting outbound) else none)
  | .admin op saved =>
    match s.store.admin http op saved with
    | (.ok _, store) => s.write store (some (.waiting false))
    | (.error _, store) => s.write store none
  | .poll loaded saved =>
    match s.store.poll loaded saved with
    | (some _, store) => s.write store (some (.waiting false))
    | (none, store) => s.write store none
  | .edit file => some { s with store := { s.store with file } }
  | .lock k =>
    match s.rebuilds[k]? with
    | some (.waiting _) => some { s with rebuilds := s.rebuilds.set k .locked }
    | _ => none
  | .storeIndex k =>
    match s.rebuilds[k]? with
    | some .locked => some { s with
        serviceIndex := buildServiceIndex s.store.memory
        rebuilds := s.rebuilds.set k .storedIndex }
    | _ => none
  | .storeRoutes k =>
    match s.rebuilds[k]? with
    | some .storedIndex => some { s with
        routes := buildRouteIndex s.store.memory
        rebuilds := s.rebuilds.eraseIdx k }
    | _ => none
  | .timeout k =>
    match s.rebuilds[k]? with
    | some (.waiting true) => some { s with rebuilds := s.rebuilds.eraseIdx k }
    | _ => none

/-- Both indexes are those of the configuration in memory. -/
def Coherent (s : Indexed) : Prop :=
  s.serviceIndex = buildServiceIndex s.store.memory ∧ s.routes = buildRouteIndex s.store.memory

/-- `SharedState::new`. -/
def Started (s : Indexed) : Prop := Coherent s ∧ s.rebuilds = []

def system (http : HttpCrate) : Transition Indexed IndexAct :=
  Transition.ofNext Started (next http)

end Indexed

/-! ## The schedule of the rebuilds -/

/-- The indexes with the configuration that the last rebuild to end has read, and whether none was
written after it read. -/
structure Watched where
  state : Indexed
  read : DynamicConfig
  current : Bool

namespace Watched

def Started (w : Watched) : Prop :=
  w.state.Started ∧ w.read = w.state.store.memory ∧ w.current = true

def next (http : HttpCrate) (w : Watched) (a : IndexAct) : Option Watched :=
  (w.state.next http a).map fun s =>
    match a with
    | .storeRoutes _ => ⟨s, s.store.memory, true⟩
    -- Whoever writes the configuration owes a rebuild.
    | _ => ⟨s, w.read, w.current && s.rebuilds.length ≤ w.state.rebuilds.length⟩

def system (http : HttpCrate) : Transition Watched IndexAct := .ofNext Started (next http)

/-- An outbound sync that owes a rebuild is dropped only while another task still has one to run,
or after another one has read the configuration since it was last written. -/
def Covered (w : Watched) (k : ℕ) : Prop := w.state.rebuilds.eraseIdx k ≠ [] ∨ w.current = true

def coveredDrops (http : HttpCrate) : Transition Watched IndexAct :=
  (system http).restrict fun w a _ => ∀ k, a = .timeout k → w.Covered k

variable {http : HttpCrate} {w w' : Watched} {s t : Indexed} {a : IndexAct}

theorem next_eq_some (h : w.next http a = some w') : w.state.next http a = some w'.state := by
  obtain ⟨s, hs, rfl⟩ := Option.map_eq_some_iff.mp h
  rw [hs]
  cases a <;> rfl

/-- Watching a run does not change it. -/
theorem reachable_iff :
    (Indexed.system http).Reachable s ↔ ∃ w, (system http).Reachable w ∧ w.state = s := by
  constructor
  · intro h
    refine h.invariant (I := fun s => ∃ w, (system http).Reachable w ∧ w.state = s) ?_ ?_
    · intro s hs
      exact ⟨⟨s, s.store.memory, true⟩, .of_init ⟨hs, rfl, rfl⟩, rfl⟩
    · rintro _ a t ⟨w, hw, rfl⟩ (ht : w.state.next http a = some t)
      have hsome : (w.next http a).isSome = true := by simp [next, ht]
      obtain ⟨w', hw'⟩ := Option.isSome_iff_exists.mp hsome
      exact ⟨w', hw.snoc hw', Option.some.inj ((next_eq_some hw').symm.trans ht)⟩
  · rintro ⟨w, hw, rfl⟩
    refine hw.invariant (I := fun w => (Indexed.system http).Reachable w.state) ?_ ?_
    · exact fun w hw => .of_init hw.1
    · exact fun w a w' hw h => hw.snoc (next_eq_some h)

/-- The indexes are those of the configuration that was read last, but that a rebuild which has
stored its service index finds the new one there; and if none is to come, none is needed. -/
structure Sound (w : Watched) : Prop where
  settled : w.state.rebuilds = [] → w.current = true
  current : w.current = true → w.read = w.state.store.memory
  stored : .storedIndex ∈ w.state.rebuilds →
    w.state.serviceIndex = buildServiceIndex w.state.store.memory
  services : .storedIndex ∉ w.state.rebuilds → w.state.serviceIndex = buildServiceIndex w.read
  routes : w.state.routes = buildRouteIndex w.read

theorem Started.sound (h : w.Started) : w.Sound := by
  obtain ⟨⟨⟨hservices, hroutes⟩, -⟩, hread, hcurrent⟩ := h
  refine ⟨fun _ => hcurrent, fun _ => hread, fun _ => hservices, fun _ => ?_, ?_⟩
  · rw [hread]
    exact hservices
  · rw [hread]
    exact hroutes

theorem Sound.write {store : Store} {rebuild : Option Rebuild} (hw : w.Sound)
    (h : w.state.write store rebuild = some s) (hr : rebuild ≠ some .storedIndex)
    (hm : rebuild = none → store.memory = w.state.store.memory) :
    Sound ⟨s, w.read, w.current && s.rebuilds.length ≤ w.state.rebuilds.length⟩ := by
  unfold Indexed.write at h
  split_ifs at h with hu
  obtain rfl := Option.some.inj h
  have hnone : .storedIndex ∉ w.state.rebuilds := fun hmem => by
    simpa using List.all_eq_true.mp hu _ hmem
  cases rebuild with
  | none =>
    simp only [Option.toList_none, List.append_nil, le_refl, decide_true, Bool.and_true]
    refine ⟨hw.settled, fun hc => ?_, fun hmem => absurd hmem hnone, hw.services, hw.routes⟩
    rw [hm rfl]
    exact hw.current hc
  | some r =>
    have hmem : .storedIndex ∉ w.state.rebuilds ++ [r] := by
      simpa [hnone, eq_comm] using hr
    simp only [Option.toList_some, List.length_append, List.length_singleton,
      Nat.not_succ_le_self, decide_false, Bool.and_false]
    refine ⟨fun he => ?_, nofun, fun h => absurd h hmem, fun _ => hw.services hnone, hw.routes⟩
    exact absurd he (List.append_ne_nil_of_right_ne_nil _ (by simp))

theorem Sound.goOn {k : ℕ} {r : Rebuild} (hw : w.Sound) (hk : w.state.rebuilds[k]? = some r)
    {r' : Rebuild} (hr : r ≠ .storedIndex) (hr' : r' ≠ .storedIndex) :
    Sound { w with state := { w.state with rebuilds := w.state.rebuilds.set k r' } } := by
  have hmem : .storedIndex ∈ w.state.rebuilds.set k r' ↔ .storedIndex ∈ w.state.rebuilds := by
    obtain ⟨l₁, l₂, hl, hset, -⟩ := List.split_of_getElem? hk
    rw [hset, hl]
    simp [hr.symm, hr'.symm]
  refine ⟨fun he => ?_, hw.current, fun h => hw.stored (hmem.mp h),
    fun h => hw.services fun h' => h (hmem.mpr h'), hw.routes⟩
  rw [List.set_eq_nil_iff] at he
  exact hw.settled he

theorem Sound.drop {k : ℕ} (hw : w.Sound) (hk : w.state.rebuilds[k]? = some (.waiting true))
    (hcurrent : w.state.rebuilds.eraseIdx k = [] → w.current = true) :
    Sound { w with state := { w.state with rebuilds := w.state.rebuilds.eraseIdx k } } := by
  have hmem : .storedIndex ∈ w.state.rebuilds.eraseIdx k ↔ .storedIndex ∈ w.state.rebuilds := by
    obtain ⟨l₁, l₂, hl, -, herase⟩ := List.split_of_getElem? hk
    rw [herase, hl]
    simp
  exact ⟨hcurrent, hw.current, fun h => hw.stored (hmem.mp h),
    fun h => hw.services fun h' => h (hmem.mpr h'), hw.routes⟩

theorem unwritten (hlen : s.rebuilds.length ≤ w.state.rebuilds.length) :
    { w with state := s } =
      (⟨s, w.read, w.current && s.rebuilds.length ≤ w.state.rebuilds.length⟩ : Watched) := by
  simp [hlen]

theorem Sound.step (hw : w.Sound) (h : (coveredDrops http).step w a w') : w'.Sound := by
  obtain ⟨hn : next http w a = some w', hdrop⟩ := h
  obtain ⟨s, hs, hw'⟩ := Option.map_eq_some_iff.mp hn
  cases a with
  | merge outbound config saved =>
    obtain rfl := hw'
    apply hw.write hs (by split_ifs <;> simp)
    intro hno
    split_ifs at hno with hv
    simp [Store.merge, hv]
  | admin op saved =>
    obtain rfl := hw'
    rcases w.state.store.admin_cases http op saved with ⟨err, -, he⟩ | ⟨dc, -, -, he⟩
    · simp only [Indexed.next, he] at hs
      exact hw.write hs (by simp) fun _ => rfl
    · simp only [Indexed.next, he] at hs
      exact hw.write hs (by simp) (by simp)
  | poll loaded saved =>
    obtain rfl := hw'
    rcases w.state.store.poll_cases loaded saved with he | ⟨file, dc, -, -, he⟩
    · simp only [Indexed.next, he] at hs
      exact hw.write hs (by simp) fun _ => rfl
    · simp only [Indexed.next, he] at hs
      exact hw.write hs (by simp) (by simp)
  | edit file =>
    obtain rfl := Option.some.inj hs
    obtain rfl := (unwritten (w := w) (s := { w.state with
      store := { w.state.store with file } }) le_rfl).trans hw'
    exact ⟨hw.settled, hw.current, hw.stored, hw.services, hw.routes⟩
  | lock k =>
    simp only [Indexed.next] at hs
    split at hs
    · next outbound hk =>
      obtain rfl := Option.some.inj hs
      obtain rfl := (unwritten (List.length_set ..).le).trans hw'
      exact hw.goOn hk (by simp) (by simp)
    · cases hs
  | storeIndex k =>
    simp only [Indexed.next] at hs
    split at hs
    · next hk =>
      obtain rfl := Option.some.inj hs
      obtain rfl := (unwritten (List.length_set ..).le).trans hw'
      have hmem : Rebuild.storedIndex ∈ w.state.rebuilds.set k .storedIndex :=
        List.mem_set (List.getElem?_eq_some_iff.mp hk).1 _
      refine ⟨fun he => ?_, hw.current, fun _ => rfl, fun h => absurd hmem h, hw.routes⟩
      rw [List.set_eq_nil_iff] at he
      exact hw.settled he
    · cases hs
  | storeRoutes k =>
    obtain rfl := hw'
    simp only [Indexed.next] at hs
    split at hs
    · next hk =>
      obtain rfl := Option.some.inj hs
      have hservices := hw.stored (List.mem_of_getElem? hk)
      exact ⟨fun _ => rfl, fun _ => rfl, fun _ => hservices, fun _ => hservices, rfl⟩
    · cases hs
  | timeout k =>
    simp only [Indexed.next] at hs
    split at hs
    · next hk =>
      obtain rfl := Option.some.inj hs
      obtain rfl := (unwritten (List.eraseIdx_sublist _ k).length_le).trans hw'
      exact hw.drop hk fun he => (hdrop k rfl).resolve_left fun hne => hne he
    · cases hs

theorem sound_of_reachable (h : (coveredDrops http).Reachable w) : w.Sound :=
  h.invariant (I := Sound) (fun _ => Started.sound) fun _ _ _ hw h => hw.step h

/-- The two configurations have the same services and routes, as the indexes have them. -/
def SameIndexes (dc dc' : DynamicConfig) : Prop :=
  buildServiceIndex dc = buildServiceIndex dc' ∧ buildRouteIndex dc = buildRouteIndex dc'

/-- In runs whose drops are covered the indexes are up to date whenever no task has a rebuild to
run. Any other drop leaves no rebuild to come and the indexes of the configuration that was read
last, which only by chance are those of the configuration in memory. -/
theorem coherent_of_covered_drops (h : (coveredDrops http).Reachable w) :
    (w.state.rebuilds = [] → w.state.Coherent) ∧
      ∀ k w', w.next http (.timeout k) = some w' → ¬ w.Covered k →
        w'.state.rebuilds = [] ∧
          (w'.state.Coherent ↔ SameIndexes w.read w.state.store.memory) := by
  have hw := sound_of_reachable h
  constructor
  · intro hnone
    have hread := hw.current (hw.settled hnone)
    rw [Indexed.Coherent, ← hread]
    exact ⟨hw.services (by simp [hnone]), hw.routes⟩
  · intro k w' hnext hcovered
    obtain ⟨s, hs, rfl⟩ := Option.map_eq_some_iff.mp hnext
    simp only [Indexed.next] at hs
    split at hs
    · next hk =>
      obtain rfl := Option.some.inj hs
      have hnone : w.state.rebuilds.eraseIdx k = [] := by
        by_contra hne
        exact hcovered (.inl hne)
      -- The only task was still waiting, so no rebuild has begun since the last one ended.
      have hmem : Rebuild.storedIndex ∉ w.state.rebuilds := by
        obtain ⟨l₁, l₂, hl, -, herase⟩ := List.split_of_getElem? hk
        obtain ⟨rfl, rfl⟩ := List.append_eq_nil_iff.mp (herase.symm.trans hnone)
        simp [hl]
      refine ⟨hnone, ?_⟩
      simp only [Indexed.Coherent, SameIndexes, hw.services hmem, hw.routes]
    · cases hs

end Watched

namespace Indexed

def freshIndexed : Indexed := ⟨⟨⟨5, [], []⟩, some ⟨5, [], []⟩⟩, ∅, ∅, []⟩

theorem started_freshIndexed : Started freshIndexed := ⟨⟨rfl, rfl⟩, rfl⟩

def oneService : DynamicConfig :=
  ⟨6, [⟨"g", [⟨"api", "n", 80, [], 1, none, .tcp, none, none, ∅, ∅, none⟩]⟩], []⟩

/-- An outbound sync merged it and is dropped while an inbound sync, which merged a newer one, has
its rebuild to run; that rebuild then runs. -/
def droppedCovered : List IndexAct :=
  [.merge true oneService true, .merge false { oneService with version := 7 } true, .timeout 0,
    .lock 0, .storeIndex 0, .storeRoutes 0]

theorem coherent_droppedCovered :
    ∃ w, Transition.exec (Watched.next plainHttp) ⟨freshIndexed, freshIndexed.store.memory, true⟩
        droppedCovered = some w ∧
      w.state.store.memory.version = 7 ∧ w.state.rebuilds = [] ∧ w.state.Coherent := by
  have h₀ : (Watched.coveredDrops plainHttp).Reachable
      ⟨freshIndexed, freshIndexed.store.memory, true⟩ :=
    .of_init ⟨started_freshIndexed, rfl, rfl⟩
  have h₁ := h₀.snoc (a := IndexAct.merge true oneService true) ⟨rfl, by simp⟩
  have h₂ := h₁.snoc
    (a := IndexAct.merge false { oneService with version := 7 } true) ⟨rfl, by simp⟩
  have h₃ := h₂.snoc (a := IndexAct.timeout 0) ⟨rfl, by rintro k ⟨⟩; exact .inl (by decide)⟩
  have h₄ := h₃.snoc (a := IndexAct.lock 0) ⟨rfl, by simp⟩
  have h₅ := h₄.snoc (a := IndexAct.storeIndex 0) ⟨rfl, by simp⟩
  have h₆ := h₅.snoc (a := IndexAct.storeRoutes 0) ⟨rfl, by simp⟩
  exact ⟨_, rfl, rfl, rfl, (Watched.coherent_of_covered_drops h₆).1 rfl⟩

/-- The outbound sync merged it, waits for the lock behind a poll pass, and is dropped. -/
def dropped : Indexed :=
  Transition.run (next plainHttp) freshIndexed
    [.merge true oneService true, .poll true true, .timeout 0]

theorem stale_dropped :
    (system plainHttp).Reachable dropped ∧ dropped.rebuilds = [] ∧
      dropped.serviceIndex ≠ buildServiceIndex dropped.store.memory := by
  refine ⟨⟨_, started_freshIndexed, Transition.reaches_run rfl⟩, rfl, fun h => ?_⟩
  have hold : dropped.serviceIndex.lookup ("n", "api") = none := rfl
  have hnew : (buildServiceIndex dropped.store.memory).lookup ("n", "api") ≠ none := by decide
  rw [h] at hold
  exact hnew hold

end Indexed

end Stouter
