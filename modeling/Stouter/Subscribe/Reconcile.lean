import Stouter.Config.Mutations
import Stouter.Gossip.Membership
import Stouter.Transition.Basic

/-! # Reconciling proxies

`manage_proxies` compares the proxies it has started with the services of the
configuration. A pass reads the configuration and the known nodes, stops
proxies that are not wanted as they are, one after the other, and then goes
through the desired services; both loops run in the order of a hash map, which
is any. A proxy is a task of its own. It ends when it is aborted, or by itself
when it fails to accept a connection, and the latter can be at any time.
-/

namespace Stouter

namespace SubscribeFilter

def isEmpty (f : SubscribeFilter) : Bool := f.serviceGroups.isEmpty && f.services.isEmpty

def allows (f : SubscribeFilter) (groupName serviceName : String) : Bool :=
  f.serviceGroups.contains groupName || f.services.contains serviceName

end SubscribeFilter

/-- Port and metadata of a locally proxied service. -/
structure ServiceInfo where
  port : UInt16
  domains : List String
  metadata : Labels

/-- A service a proxy should be running for. -/
structure DesiredService where
  name : String
  domains : List String
  metadata : Labels
  localPort : Option UInt16

/-- A proxy that was started; `abort` is the position of its task. -/
structure ProxyHandle where
  serviceName : String
  requestedPort : Option UInt16
  abort : ℕ

/-- A task of `run_proxy` and the port it has bound. -/
structure ProxyTask where
  serviceName : String
  port : UInt16
  accepting : Bool

structure Snapshot where
  dc : DynamicConfig
  nodes : NodeMap

/-- How far a pass has come: the keys still to be removed, or the services still to be gone
through and the keys that failed to start. -/
inductive PassPhase
  | idle
  | removing (pass : Snapshot) (removed : List String)
  | starting (pass : Snapshot) (desired : List (String × DesiredService)) (failed : List String)

/-- The state of `manage_proxies` with every proxy task it has started. -/
structure ProxyManager where
  proxies : HashMap String ProxyHandle
  servicePorts : HashMap String ServiceInfo
  tasks : List ProxyTask
  phase : PassPhase

inductive ManagerAct
  | tick (pass : Snapshot)
  | remove (i : ℕ)
  | removed
  | start (i : ℕ) (bound : Option UInt16)
  | finish
  | acceptError (i : ℕ)

/-! ## The desired services -/

namespace Snapshot

/-- The group and instance belong to a service this daemon proxies: not its own, not filtered
out, and on a known node. -/
def isWanted (cfg : Config) (pass : Snapshot) (groupName : String) (svc : Service) : Bool :=
  !(cfg.mode = .nodeSubscribe && svc.nodeId = cfg.nodeId) &&
    cfg.subscribeFilter.all (fun f => f.isEmpty || f.allows groupName svc.name) &&
    decide (svc.nodeId ∈ pass.nodes)

def wanted (cfg : Config) (pass : Snapshot) : List (String × Service) :=
  (pass.dc.serviceGroups.flatMap fun g => g.services.map fun svc => (g.name, svc)).filter fun e =>
    pass.isWanted cfg e.1 e.2

/-- The port to ask for, if the instances agree on one. -/
def localPort (pass : Snapshot) (serviceName : String) : Option UInt16 :=
  match pass.dc.localPortFor serviceName with
  | .ok port => port
  | .error _ => none

end Snapshot

def serviceKey (e : String × Service) : String := s!"{e.1}/{e.2.name}"

def DesiredService.of (pass : Snapshot) (svc : Service) : DesiredService where
  name := svc.name
  domains := svc.domains
  metadata := svc.metadata
  localPort := pass.localPort svc.name

/-- The desired services: the first wanted instance under each key. -/
def Snapshot.desired (cfg : Config) (pass : Snapshot) : HashMap String DesiredService :=
  (pass.wanted cfg).foldl (fun desired e =>
    if serviceKey e ∈ desired then desired else desired.insert (serviceKey e) (.of pass e.2)) ∅

/-! ## A pass -/

namespace ProxyManager

def new : ProxyManager := ⟨∅, ∅, [], .idle⟩

def stopTask (s : ProxyManager) (i : ℕ) : ProxyManager :=
  { s with tasks := s.tasks.modify i fun task => { task with accepting := false } }

/-- The keys of the proxies that are no longer desired or whose port has changed. -/
def toRemove (s : ProxyManager) (desired : HashMap String DesiredService) : List String :=
  (s.proxies.entries.filter fun e =>
    (desired.lookup e.1).all fun d => d.localPort ≠ e.2.requestedPort).map Sigma.fst

def removeProxy (s : ProxyManager) (key : String) : ProxyManager :=
  match s.proxies.lookup key with
  | some handle => { s.stopTask handle.abort with
      proxies := s.proxies.erase key
      servicePorts := s.servicePorts.erase handle.serviceName }
  | none => s

/-- A proxy has bound its port. -/
def addProxy (s : ProxyManager) (key : String) (d : DesiredService) (port : UInt16) :
    ProxyManager :=
  { s with
    proxies := s.proxies.insert key ⟨d.name, d.localPort, s.tasks.length⟩
    servicePorts := s.servicePorts.insert d.name ⟨port, d.domains, d.metadata⟩
    tasks := s.tasks ++ [⟨d.name, port, true⟩] }

/-- A running service gets the domains and metadata of the configuration. -/
def refresh (s : ProxyManager) (serviceName : String) (d : DesiredService) : ProxyManager :=
  { s with servicePorts := HashMap.modify serviceName (fun info =>
      { info with domains := d.domains, metadata := d.metadata }) s.servicePorts }

/-- Go through one desired service: refresh it if it runs, skip it if its name is taken, else
start it. The second result is whether it failed to bind. -/
def startProxy (s : ProxyManager) (key : String) (d : DesiredService) (bound : Option UInt16) :
    ProxyManager × Bool :=
  match s.proxies.lookup key with
  | some handle => (s.refresh handle.serviceName d, false)
  | none =>
    if d.name ∈ s.servicePorts then (s, false)
    else
      match bound with
      | some port => (s.addProxy key d port, false)
      | none => (s, true)

def next (cfg : Config) (s : ProxyManager) : ManagerAct → Option ProxyManager
  | .tick pass =>
    match s.phase with
    | .idle => some { s with phase := .removing pass (s.toRemove (pass.desired cfg)) }
    | _ => none
  | .remove i =>
    match s.phase with
    | .removing pass removed =>
      removed[i]?.map fun key =>
        { s.removeProxy key with phase := .removing pass (removed.eraseIdx i) }
    | _ => none
  | .removed =>
    match s.phase with
    | .removing pass [] => some { s with
        phase := .starting pass ((pass.desired cfg).entries.map fun e => (e.1, e.2)) [] }
    | _ => none
  | .start i bound =>
    match s.phase with
    | .starting pass desired failed =>
      desired[i]?.map fun (key, d) =>
        let (s, failure) := s.startProxy key d bound
        { s with phase :=
            .starting pass (desired.eraseIdx i) (if failure then key :: failed else failed) }
    | _ => none
  | .finish =>
    match s.phase with
    | .starting _ [] _ => some { s with phase := .idle }
    | _ => none
  | .acceptError i =>
    match s.tasks[i]? with
    | some task => if task.accepting then some (s.stopTask i) else none
    | none => none

def system (cfg : Config) : Transition ProxyManager ManagerAct :=
  Transition.ofNext (· = new) (next cfg)

def Accepts (s : ProxyManager) (i : ℕ) : Prop :=
  ∃ task, s.tasks[i]? = some task ∧ task.accepting = true

/-- A task started under the key accepts connections for the service. -/
def Runs (s : ProxyManager) (key name : String) : Prop :=
  ∃ handle, s.proxies.lookup key = some handle ∧ handle.serviceName = name ∧
    s.Accepts handle.abort

/-- What holds after a pass: the published names are those of the accepting tasks, each under one
key and with the port its task has bound, proxies were started with the port their service asks
for, and a service does not run only if its name is taken or it failed to bind. -/
structure Reconciled (cfg : Config) (pass : Snapshot) (failed : List String) (s : ProxyManager) :
    Prop where
  published : ∀ name, name ∈ s.servicePorts ↔
    ∃ task ∈ s.tasks, task.accepting = true ∧ task.serviceName = name
  owned : ∀ name ∈ s.servicePorts, ∃! key, s.Runs key name
  ports : ∀ task ∈ s.tasks, task.accepting = true →
    (s.servicePorts.lookup task.serviceName).map (·.port) = some task.port
  requested : ∀ key handle, s.proxies.lookup key = some handle →
    handle.requestedPort = pass.localPort handle.serviceName
  missing : ∀ e ∈ pass.wanted cfg, ¬s.Runs (serviceKey e) e.2.name →
    (∃ key, key ≠ serviceKey e ∧ s.Runs key e.2.name) ∨ serviceKey e ∈ failed

/-- No two wanted services of different names have the same key. -/
def KeysApart (cfg : Config) (pass : Snapshot) : Prop :=
  ∀ e ∈ pass.wanted cfg, ∀ e' ∈ pass.wanted cfg, serviceKey e = serviceKey e' →
    e.2.name = e'.2.name

/-- A pass finds keys apart, and the proxies it keeps accepting and started for the service that
has the key; and no proxy that a pass keeps fails to accept before the pass is over. -/
def Steady (cfg : Config) (s : ProxyManager) : ManagerAct → Prop
  | .tick pass => KeysApart cfg pass ∧
      ∀ key handle, s.proxies.lookup key = some handle → ∀ e ∈ pass.wanted cfg,
        serviceKey e = key → pass.localPort e.2.name = handle.requestedPort →
          handle.serviceName = e.2.name ∧ s.Accepts handle.abort
  | .acceptError i =>
    match s.phase with
    | .idle => True
    | .removing _ removed => ∀ key handle, s.proxies.lookup key = some handle →
        handle.abort = i → key ∈ removed
    | .starting _ _ _ => False
  | _ => True

def steady (cfg : Config) : Transition ProxyManager ManagerAct :=
  (system cfg).restrict fun s a _ => s.Steady cfg a

/-! ## The desired services, through look-ups -/

variable {cfg : Config} {pass : Snapshot} {s t : ProxyManager} {key name : String}
  {d : DesiredService}

theorem lookup_foldl_desired (l : List (String × Service)) (m : HashMap String DesiredService) :
    (l.foldl (fun desired e => if serviceKey e ∈ desired then desired
      else desired.insert (serviceKey e) (.of pass e.2)) m).lookup key =
      (m.lookup key).or ((l.find? fun e => serviceKey e = key).map fun e => .of pass e.2) := by
  induction l generalizing m with
  | nil => simp
  | cons e l ih =>
    rw [List.foldl_cons, ih]
    by_cases hk : serviceKey e = key
    · subst hk
      rw [List.find?_cons_of_pos (by simp)]
      split_ifs with hmem
      · obtain ⟨d, hd⟩ := HashMap.exists_lookup hmem
        simp [hd]
      · simp [AList.lookup_eq_none.mpr hmem]
    · rw [List.find?_cons_of_neg (by simpa using hk)]
      split_ifs
      · rfl
      · rw [HashMap.lookup_insert_eq_ite, if_neg fun he => hk he.symm]

theorem lookup_desired : (pass.desired cfg).lookup key =
    ((pass.wanted cfg).find? fun e => serviceKey e = key).map fun e => .of pass e.2 := by
  rw [Snapshot.desired, lookup_foldl_desired, AList.lookup_empty, Option.none_or]

theorem wanted_of_lookup_desired (h : (pass.desired cfg).lookup key = some d) :
    ∃ e ∈ pass.wanted cfg, serviceKey e = key ∧ d = .of pass e.2 := by
  rw [lookup_desired] at h
  obtain ⟨e, he, hd⟩ := Option.map_eq_some_iff.mp h
  exact ⟨e, List.mem_of_find?_eq_some he, by simpa using List.find?_some he, hd.symm⟩

theorem exists_lookup_desired {e : String × Service} (h : e ∈ pass.wanted cfg) :
    ∃ d, (pass.desired cfg).lookup (serviceKey e) = some d := by
  rw [← Option.isSome_iff_exists, lookup_desired, Option.isSome_map, List.find?_isSome]
  exact ⟨e, h, by simp⟩

/-! ## Handles and tasks, in every run -/

/-- Every handle has its task and has its name published with the port of the task, no two share
a name, every published name has a handle, and so has every accepting task. -/
structure Sound (s : ProxyManager) : Prop where
  task : ∀ key handle, s.proxies.lookup key = some handle → ∃ task info,
    s.tasks[handle.abort]? = some task ∧ task.serviceName = handle.serviceName ∧
      s.servicePorts.lookup handle.serviceName = some info ∧ info.port = task.port
  owner : ∀ name ∈ s.servicePorts, ∃ key handle, s.proxies.lookup key = some handle ∧
    handle.serviceName = name
  unique : ∀ key key' handle handle', s.proxies.lookup key = some handle →
    s.proxies.lookup key' = some handle' → handle.serviceName = handle'.serviceName → key = key'
  accounted : ∀ i, s.Accepts i → ∃ key handle, s.proxies.lookup key = some handle ∧
    handle.abort = i

theorem sound_new : Sound new := by
  constructor
  · intro key handle h
    simp [new] at h
  · intro name h
    simp [new] at h
  · intro key key' handle handle' h
    simp [new] at h
  · rintro i ⟨task, h, _⟩
    simp [new] at h

theorem Sound.setPhase (h : Sound s) (phase : PassPhase) : Sound { s with phase } :=
  ⟨h.task, h.owner, h.unique, h.accounted⟩

theorem getElem?_stopTask (i j : ℕ) : (s.stopTask i).tasks[j]? =
    s.tasks[j]?.map fun task => if i = j then { task with accepting := false } else task := by
  rw [stopTask, List.getElem?_modify]
  split_ifs with h <;> simp

theorem accepts_stopTask {i j : ℕ} : (s.stopTask i).Accepts j ↔ i ≠ j ∧ s.Accepts j := by
  unfold Accepts
  rw [getElem?_stopTask]
  by_cases hij : i = j
  · simp [hij]
  · simp [hij]

theorem exists_getElem?_stopTask {i j : ℕ} {task : ProxyTask} (h : s.tasks[j]? = some task) :
    ∃ task', (s.stopTask i).tasks[j]? = some task' ∧ task'.serviceName = task.serviceName ∧
      task'.port = task.port := by
  rw [getElem?_stopTask, h]
  exact ⟨_, rfl, by split_ifs <;> rfl, by split_ifs <;> rfl⟩

theorem Sound.stopTask (h : Sound s) (i : ℕ) : Sound (s.stopTask i) := by
  refine ⟨?_, h.owner, h.unique, ?_⟩
  · intro key handle hkey
    obtain ⟨task, info, htask, hname, hinfo, hport⟩ := h.task key handle hkey
    obtain ⟨task', htask', hname', hport'⟩ := exists_getElem?_stopTask (i := i) htask
    exact ⟨task', info, htask', hname'.trans hname, hinfo, hport.trans hport'.symm⟩
  · intro j hj
    exact h.accounted j (accepts_stopTask.mp hj).2

theorem Sound.removeProxy (h : Sound s) (key : String) : Sound (s.removeProxy key) := by
  unfold ProxyManager.removeProxy
  cases hkey : s.proxies.lookup key with
  | none => exact h
  | some handle =>
    have hstop := h.stopTask handle.abort
    -- the other handles have other names, so their ports stay published
    have hother : ∀ k x, (s.proxies.erase key).lookup k = some x →
        s.proxies.lookup k = some x ∧ x.serviceName ≠ handle.serviceName := by
      intro k x hk
      rw [HashMap.lookup_erase_eq_ite] at hk
      split_ifs at hk with hne
      exact ⟨hk, fun he => hne (h.unique k key x handle hk hkey he)⟩
    have hkept : ∀ k x, s.proxies.lookup k = some x → x ≠ handle →
        (s.proxies.erase key).lookup k = some x := by
      intro k x hk hne
      rw [HashMap.lookup_erase_eq_ite, if_neg]
      · exact hk
      · rintro rfl
        rw [hkey] at hk
        exact hne (Option.some.inj hk).symm
    constructor
    · intro k x hk
      obtain ⟨hx, hne⟩ := hother k x hk
      obtain ⟨task, info, htask, hname, hinfo, hport⟩ := hstop.task k x hx
      refine ⟨task, info, htask, hname, ?_, hport⟩
      rw [HashMap.lookup_erase_eq_ite, if_neg hne]
      exact hinfo
    · intro name (hname : name ∈ s.servicePorts.erase handle.serviceName)
      obtain ⟨hne, hmem⟩ := AList.mem_erase.mp hname
      obtain ⟨k, x, hk, rfl⟩ := h.owner name hmem
      exact ⟨k, x, hkept k x hk fun he => hne (he ▸ rfl), rfl⟩
    · intro k k' x x' hk hk' he
      exact h.unique k k' x x' (hother k x hk).1 (hother k' x' hk').1 he
    · intro j hj
      obtain ⟨hne, hj⟩ := accepts_stopTask.mp hj
      obtain ⟨k, x, hk, rfl⟩ := h.accounted j hj
      exact ⟨k, x, hkept k x hk fun he => hne (he ▸ rfl), rfl⟩

theorem Sound.refresh (h : Sound s) (serviceName : String) (d : DesiredService) :
    Sound (s.refresh serviceName d) := by
  refine ⟨?_, ?_, h.unique, h.accounted⟩
  · intro key handle hkey
    obtain ⟨task, info, htask, hname, hinfo, hport⟩ := h.task key handle hkey
    refine ⟨task, if handle.serviceName = serviceName then
      { info with domains := d.domains, metadata := d.metadata } else info, htask, hname, ?_, ?_⟩
    · rw [ProxyManager.refresh, HashMap.lookup_modify]
      split_ifs with he
      · rw [← he, hinfo]
        rfl
      · exact hinfo
    · split_ifs <;> exact hport
  · intro name hname
    exact h.owner name (HashMap.mem_modify.mp hname)

theorem Sound.addProxy (h : Sound s) (port : UInt16) (hkey : s.proxies.lookup key = none)
    (hname : d.name ∉ s.servicePorts) : Sound (s.addProxy key d port) := by
  have hfree : ∀ k x, s.proxies.lookup k = some x → k ≠ key ∧ x.serviceName ≠ d.name := by
    intro k x hk
    constructor
    · rintro rfl
      rw [hkey] at hk
      cases hk
    · intro he
      obtain ⟨_, info, _, _, hinfo, _⟩ := h.task k x hk
      rw [he] at hinfo
      exact hname (HashMap.mem_of_lookup hinfo)
  have hcases : ∀ k x, (s.addProxy key d port).proxies.lookup k = some x →
      (k = key ∧ x = ⟨d.name, d.localPort, s.tasks.length⟩) ∨ s.proxies.lookup k = some x := by
    intro k x hk
    rw [ProxyManager.addProxy, HashMap.lookup_insert_eq_ite] at hk
    split_ifs at hk with he
    · exact .inl ⟨he, (Option.some.inj hk).symm⟩
    · exact .inr hk
  have hold : ∀ k x, s.proxies.lookup k = some x →
      (s.addProxy key d port).proxies.lookup k = some x := by
    intro k x hk
    rw [ProxyManager.addProxy, HashMap.lookup_insert_eq_ite, if_neg (hfree k x hk).1]
    exact hk
  have hnew : (s.addProxy key d port).proxies.lookup key =
      some ⟨d.name, d.localPort, s.tasks.length⟩ := AList.lookup_insert _
  constructor
  · intro k x hk
    rcases hcases k x hk with ⟨rfl, rfl⟩ | hk
    · exact ⟨⟨d.name, port, true⟩, ⟨port, d.domains, d.metadata⟩, List.getElem?_concat_length, rfl,
        AList.lookup_insert _, rfl⟩
    · obtain ⟨task, info, htask, hx, hinfo, hport⟩ := h.task k x hk
      refine ⟨task, info, ?_, hx, ?_, hport⟩
      · exact List.getElem?_append_left (List.getElem?_eq_some_iff.mp htask).1 ▸ htask
      · rw [ProxyManager.addProxy, HashMap.lookup_insert_eq_ite, if_neg (hfree k x hk).2]
        exact hinfo
  · intro name (hmem : name ∈ s.servicePorts.insert d.name _)
    rcases (AList.mem_insert _).mp hmem with rfl | hmem
    · exact ⟨key, _, hnew, rfl⟩
    · obtain ⟨k, x, hk, hx⟩ := h.owner name hmem
      exact ⟨k, x, hold k x hk, hx⟩
  · intro k k' x x' hk hk' he
    rcases hcases k x hk with ⟨hkey', hx⟩ | hx
    · rcases hcases k' x' hk' with ⟨hkey'', _⟩ | hx'
      · rw [hkey', hkey'']
      · rw [hx] at he
        exact absurd he.symm (hfree k' x' hx').2
    · rcases hcases k' x' hk' with ⟨_, hx'⟩ | hx'
      · rw [hx'] at he
        exact absurd he (hfree k x hx).2
      · exact h.unique k k' x x' hx hx' he
  · rintro i ⟨task, htask, haccepts⟩
    rcases Nat.lt_trichotomy i s.tasks.length with hi | rfl | hi
    · rw [ProxyManager.addProxy, List.getElem?_append_left hi] at htask
      obtain ⟨k, x, hk, hx⟩ := h.accounted i ⟨task, htask, haccepts⟩
      exact ⟨k, x, hold k x hk, hx⟩
    · exact ⟨key, _, hnew, rfl⟩
    · rw [ProxyManager.addProxy, List.getElem?_eq_none (by simp; omega)] at htask
      cases htask

theorem Sound.startProxy (h : Sound s) (key : String) (d : DesiredService)
    (bound : Option UInt16) : Sound (s.startProxy key d bound).1 := by
  unfold ProxyManager.startProxy
  cases hkey : s.proxies.lookup key with
  | some handle => exact h.refresh handle.serviceName d
  | none =>
    dsimp only
    split_ifs with hname
    · exact h
    · cases bound with
      | some port => exact h.addProxy port hkey hname
      | none => exact h

def Effect (cfg : Config) (s : ProxyManager) (a : ManagerAct) (t : ProxyManager) : Prop :=
  match a with
  | .tick pass => s.phase = .idle ∧
      t = { s with phase := .removing pass (s.toRemove (pass.desired cfg)) }
  | .remove i => ∃ pass removed key, s.phase = .removing pass removed ∧ removed[i]? = some key ∧
      t = { s.removeProxy key with phase := .removing pass (removed.eraseIdx i) }
  | .removed => ∃ pass, s.phase = .removing pass [] ∧ t = { s with
      phase := .starting pass ((pass.desired cfg).entries.map fun e => (e.1, e.2)) [] }
  | .start i bound => ∃ pass desired failed key d, s.phase = .starting pass desired failed ∧
      desired[i]? = some (key, d) ∧ t = { (s.startProxy key d bound).1 with
        phase := .starting pass (desired.eraseIdx i)
          (if (s.startProxy key d bound).2 then key :: failed else failed) }
  | .finish => ∃ pass failed, s.phase = .starting pass [] failed ∧ t = { s with phase := .idle }
  | .acceptError i => t = s.stopTask i

theorem effect_of_next {a : ManagerAct} (h : next cfg s a = some t) : s.Effect cfg a t := by
  unfold next at h
  cases a with
  | tick pass =>
    dsimp only at h
    split at h
    · exact ⟨by assumption, (Option.some.inj h).symm⟩
    · cases h
  | remove i =>
    dsimp only at h
    split at h
    · obtain ⟨key, hkey, ht⟩ := Option.map_eq_some_iff.mp h
      exact ⟨_, _, key, by assumption, hkey, ht.symm⟩
    · cases h
  | removed =>
    dsimp only at h
    split at h
    · exact ⟨_, by assumption, (Option.some.inj h).symm⟩
    · cases h
  | start i bound =>
    dsimp only at h
    split at h
    · obtain ⟨⟨key, d⟩, hkey, ht⟩ := Option.map_eq_some_iff.mp h
      exact ⟨_, _, _, key, d, by assumption, hkey, ht.symm⟩
    · cases h
  | finish =>
    dsimp only at h
    split at h
    · exact ⟨_, _, by assumption, (Option.some.inj h).symm⟩
    · cases h
  | acceptError i =>
    dsimp only at h
    split at h
    · split_ifs at h
      exact (Option.some.inj h).symm
    · cases h

theorem Sound.step {a : ManagerAct} (h : Sound s) (ht : next cfg s a = some t) : Sound t := by
  have he := effect_of_next ht
  cases a with
  | tick pass =>
    obtain ⟨_, rfl⟩ := he
    exact h.setPhase _
  | remove i =>
    obtain ⟨_, _, key, _, _, rfl⟩ := he
    exact (h.removeProxy key).setPhase _
  | removed =>
    obtain ⟨_, _, rfl⟩ := he
    exact h.setPhase _
  | start i bound =>
    obtain ⟨_, _, _, key, d, _, _, rfl⟩ := he
    exact (h.startProxy key d bound).setPhase _
  | finish =>
    obtain ⟨_, _, _, rfl⟩ := he
    exact h.setPhase _
  | acceptError i =>
    obtain rfl := he
    exact h.stopTask i

theorem sound_of_reachable (h : (system cfg).Reachable s) : Sound s := by
  refine h.invariant (I := Sound) ?_ fun _ _ _ hs ht => hs.step ht
  rintro s rfl
  exact sound_new

/-! ## Steady runs -/

variable {removed failed : List String} {desired : List (String × DesiredService)}
  {handle : ProxyHandle}

/-- The proxy accepts connections and was started for the service that is desired under its key
with the port that it asks for. -/
def Current (cfg : Config) (pass : Snapshot) (s : ProxyManager) (key : String)
    (handle : ProxyHandle) : Prop :=
  s.Accepts handle.abort ∧ ∃ d, (pass.desired cfg).lookup key = some d ∧
    handle.serviceName = d.name ∧ handle.requestedPort = d.localPort

/-- While proxies are removed: those that are not current are still to be removed. -/
structure Removing (cfg : Config) (pass : Snapshot) (removed : List String) (s : ProxyManager) :
    Prop where
  apart : KeysApart cfg pass
  current : ∀ key handle, s.proxies.lookup key = some handle →
    key ∈ removed ∨ Current cfg pass s key handle

/-- While proxies are started: all are current, and a desired service is still to be gone
through, has its name published or failed to start. -/
structure Starting (cfg : Config) (pass : Snapshot) (desired : List (String × DesiredService))
    (failed : List String) (s : ProxyManager) : Prop where
  apart : KeysApart cfg pass
  current : ∀ key handle, s.proxies.lookup key = some handle → Current cfg pass s key handle
  listed : ∀ key d, (key, d) ∈ desired → (pass.desired cfg).lookup key = some d
  covered : ∀ key d, (pass.desired cfg).lookup key = some d →
    (key, d) ∈ desired ∨ d.name ∈ s.servicePorts ∨ key ∈ failed

def OnTrack (cfg : Config) (s : ProxyManager) : Prop :=
  match s.phase with
  | .idle => True
  | .removing pass removed => Removing cfg pass removed s
  | .starting pass desired failed => Starting cfg pass desired failed s

theorem lookup_desired_of_not_removed (hkey : s.proxies.lookup key = some handle)
    {m : HashMap String DesiredService} (h : key ∉ s.toRemove m) :
    ∃ d, m.lookup key = some d ∧ d.localPort = handle.requestedPort := by
  have hmem : (⟨key, handle⟩ : Σ _ : String, ProxyHandle) ∈ s.proxies.entries :=
    AList.mem_lookup_iff.mp hkey
  cases hd : m.lookup key with
  | none =>
    refine absurd (List.mem_map.mpr ⟨_, List.mem_filter.mpr ⟨hmem, ?_⟩, rfl⟩) h
    simp [hd]
  | some d =>
    refine ⟨d, rfl, ?_⟩
    by_contra hne
    refine h (List.mem_map.mpr ⟨_, List.mem_filter.mpr ⟨hmem, ?_⟩, rfl⟩)
    simpa [hd] using hne

theorem removing_toRemove (hsteady : s.Steady cfg (.tick pass)) :
    Removing cfg pass (s.toRemove (pass.desired cfg)) s := by
  refine ⟨hsteady.1, ?_⟩
  intro key handle hkey
  by_cases hmem : key ∈ s.toRemove (pass.desired cfg)
  · exact .inl hmem
  · right
    obtain ⟨d, hd, hport⟩ := lookup_desired_of_not_removed hkey hmem
    obtain ⟨e, he, hek, rfl⟩ := wanted_of_lookup_desired hd
    obtain ⟨hname, haccepts⟩ := hsteady.2 key handle hkey e he hek hport
    exact ⟨haccepts, _, hd, hname, hport.symm⟩

theorem Sound.abort_ne (h : Sound s) {key' : String} {handle' : ProxyHandle}
    (hkey : s.proxies.lookup key = some handle) (hkey' : s.proxies.lookup key' = some handle')
    (hne : key ≠ key') : handle.abort ≠ handle'.abort := by
  intro he
  obtain ⟨task, _, htask, hname, _⟩ := h.task key handle hkey
  obtain ⟨task', _, htask', hname', _⟩ := h.task key' handle' hkey'
  rw [he, htask'] at htask
  obtain rfl := Option.some.inj htask
  exact hne (h.unique key key' handle handle' hkey hkey' (hname.symm.trans hname'))

theorem Removing.removeProxy (h : Removing cfg pass removed s) (hs : Sound s) {i : ℕ}
    (hi : removed[i]? = some key) : Removing cfg pass (removed.eraseIdx i) (s.removeProxy key) := by
  obtain ⟨l₁, l₂, hl, _, herase⟩ := List.split_of_getElem? hi
  have hkeep : ∀ k, k ∈ removed → k ≠ key → k ∈ removed.eraseIdx i := by
    intro k hk hne
    rw [herase]
    rw [hl] at hk
    simp only [List.mem_append, List.mem_cons] at hk ⊢
    tauto
  refine ⟨h.apart, ?_⟩
  unfold ProxyManager.removeProxy
  cases hkey : s.proxies.lookup key with
  | none =>
    intro k x hk
    have hne : k ≠ key := by
      rintro rfl
      rw [hkey] at hk
      cases hk
    exact (h.current k x hk).imp_left fun hmem => hkeep k hmem hne
  | some handle =>
    intro k x (hk : (s.proxies.erase key).lookup k = some x)
    rw [HashMap.lookup_erase_eq_ite] at hk
    split_ifs at hk with hne
    rcases h.current k x hk with hmem | ⟨haccepts, hd⟩
    · exact .inl (hkeep k hmem hne)
    · exact .inr ⟨accepts_stopTask.mpr ⟨(hs.abort_ne hk hkey hne).symm, haccepts⟩, hd⟩

theorem Removing.starting (h : Removing cfg pass [] s) :
    Starting cfg pass ((pass.desired cfg).entries.map fun e => (e.1, e.2)) [] s := by
  refine ⟨h.apart, ?_, ?_, ?_⟩
  · intro key handle hkey
    exact (h.current key handle hkey).resolve_left List.not_mem_nil
  · intro key d hmem
    obtain ⟨⟨_, _⟩, he, hed⟩ := List.mem_map.mp hmem
    cases hed
    exact AList.mem_lookup_iff.mpr he
  · intro key d hd
    exact .inl (List.mem_map.mpr ⟨⟨key, d⟩, AList.mem_lookup_iff.mp hd, rfl⟩)

/-- One desired service is dealt with and nothing that was published is taken back. -/
theorem Starting.progress (h : Starting cfg pass desired failed s) {i : ℕ} {failed' : List String}
    (hi : desired[i]? = some (key, d))
    (hcurrent : ∀ k x, t.proxies.lookup k = some x → Current cfg pass t k x)
    (hports : ∀ name ∈ s.servicePorts, name ∈ t.servicePorts) (hfailed : failed ⊆ failed')
    (hdone : d.name ∈ t.servicePorts ∨ key ∈ failed') :
    Starting cfg pass (desired.eraseIdx i) failed' t := by
  obtain ⟨l₁, l₂, hl, _, herase⟩ := List.split_of_getElem? hi
  refine ⟨h.apart, hcurrent, ?_, ?_⟩
  · intro k x hmem
    exact h.listed k x (List.mem_of_mem_eraseIdx hmem)
  · intro k x hx
    rcases h.covered k x hx with hmem | hname | hfail
    · rw [hl] at hmem
      rw [herase]
      simp only [List.mem_append, List.mem_cons] at hmem ⊢
      rcases hmem with hmem | heq | hmem
      · exact .inl (.inl hmem)
      · cases heq
        exact .inr hdone
      · exact .inl (.inr hmem)
    · exact .inr (.inl (hports _ hname))
    · exact .inr (.inr (hfailed hfail))

theorem Accepts.append {i : ℕ} (h : s.Accepts i) (key : String) (d : DesiredService)
    (port : UInt16) : (s.addProxy key d port).Accepts i := by
  obtain ⟨task, htask, haccepts⟩ := h
  refine ⟨task, ?_, haccepts⟩
  rw [addProxy, List.getElem?_append_left (List.getElem?_eq_some_iff.mp htask).1]
  exact htask

theorem Starting.startProxy (h : Starting cfg pass desired failed s) (hs : Sound s) {i : ℕ}
    (hi : desired[i]? = some (key, d)) (bound : Option UInt16) :
    Starting cfg pass (desired.eraseIdx i)
      (if (s.startProxy key d bound).2 then key :: failed else failed)
      (s.startProxy key d bound).1 := by
  have hd := h.listed key d (List.mem_of_getElem? hi)
  unfold ProxyManager.startProxy
  cases hkey : s.proxies.lookup key with
  | some handle =>
    -- the proxy runs for the desired service, so the name of the service is published
    obtain ⟨_, d', hd', hname, _⟩ := h.current key handle hkey
    rw [hd] at hd'
    obtain rfl := Option.some.inj hd'
    obtain ⟨_, info, _, _, hinfo, _⟩ := hs.task key handle hkey
    have hmem : d.name ∈ s.servicePorts := by
      rw [← hname]
      exact HashMap.mem_of_lookup hinfo
    exact h.progress hi h.current (fun _ hp => HashMap.mem_modify.mpr hp) (List.Subset.refl _)
      (.inl (HashMap.mem_modify.mpr hmem))
  | none =>
    dsimp only
    by_cases hname : d.name ∈ s.servicePorts
    · rw [if_pos hname]
      exact h.progress hi h.current (fun _ hp => hp) (List.Subset.refl _) (.inl hname)
    · rw [if_neg hname]
      cases bound with
      | some port =>
        refine h.progress hi ?_ (fun _ hp => (AList.mem_insert _).mpr (.inr hp))
          (List.Subset.refl _) (.inl ((AList.mem_insert _).mpr (.inl rfl)))
        intro k x (hk : (s.proxies.insert key _).lookup k = some x)
        rw [HashMap.lookup_insert_eq_ite] at hk
        split_ifs at hk with hkk
        · obtain rfl := Option.some.inj hk
          subst hkk
          exact ⟨⟨_, List.getElem?_concat_length, rfl⟩, d, hd, rfl, rfl⟩
        · obtain ⟨haccepts, hdesired⟩ := h.current k x hk
          exact ⟨haccepts.append key d port, hdesired⟩
      | none =>
        exact h.progress hi h.current (fun _ hp => hp) (List.subset_cons_self key failed)
          (.inr List.mem_cons_self)

theorem OnTrack.step {a : ManagerAct} (h : OnTrack cfg s) (hs : Sound s) (hsteady : s.Steady cfg a)
    (ht : next cfg s a = some t) : OnTrack cfg t := by
  have he := effect_of_next ht
  cases a with
  | tick pass =>
    obtain ⟨_, rfl⟩ := he
    obtain ⟨hapart, hcurrent⟩ := removing_toRemove hsteady
    exact ⟨hapart, hcurrent⟩
  | remove i =>
    obtain ⟨pass, removed, key, hphase, hi, rfl⟩ := he
    rw [OnTrack, hphase] at h
    obtain ⟨hapart, hcurrent⟩ := Removing.removeProxy h hs hi
    exact ⟨hapart, hcurrent⟩
  | removed =>
    obtain ⟨pass, hphase, rfl⟩ := he
    rw [OnTrack, hphase] at h
    obtain ⟨hapart, hcurrent, hlisted, hcovered⟩ := Removing.starting h
    exact ⟨hapart, hcurrent, hlisted, hcovered⟩
  | start i bound =>
    obtain ⟨pass, desired, failed, key, d, hphase, hi, rfl⟩ := he
    rw [OnTrack, hphase] at h
    obtain ⟨hapart, hcurrent, hlisted, hcovered⟩ := Starting.startProxy h hs hi bound
    exact ⟨hapart, hcurrent, hlisted, hcovered⟩
  | finish =>
    obtain ⟨_, _, _, rfl⟩ := he
    trivial
  | acceptError i =>
    obtain rfl := he
    unfold OnTrack Steady at *
    cases hphase : s.phase with
    | idle => simp [stopTask, hphase]
    | removing pass removed =>
      simp only [hphase] at h hsteady
      simp only [stopTask, hphase]
      refine ⟨h.apart, ?_⟩
      intro key handle hkey
      by_cases hi : handle.abort = i
      · exact .inl (hsteady key handle hkey hi)
      · rcases h.current key handle hkey with hmem | ⟨haccepts, hd⟩
        · exact .inl hmem
        · exact .inr ⟨accepts_stopTask.mpr ⟨fun hc => hi hc.symm, haccepts⟩, hd⟩
    | starting pass desired failed =>
      rw [hphase] at hsteady
      exact hsteady.elim

theorem onTrack_of_reachable (h : (steady cfg).Reachable s) : Sound s ∧ OnTrack cfg s := by
  refine h.invariant (I := fun s => Sound s ∧ OnTrack cfg s) ?_ ?_
  · rintro s rfl
    exact ⟨sound_new, trivial⟩
  · rintro s a t ⟨hs, htrack⟩ ⟨ht, hsteady⟩
    exact ⟨hs.step ht, htrack.step hs hsteady ht⟩

/-! ## After a pass -/

theorem Sound.lookup_of_accepting (h : Sound s) {task : ProxyTask} (hmem : task ∈ s.tasks)
    (haccepts : task.accepting = true) :
    ∃ info, s.servicePorts.lookup task.serviceName = some info ∧ info.port = task.port := by
  obtain ⟨i, hi⟩ := List.mem_iff_getElem?.mp hmem
  obtain ⟨key, handle, hkey, rfl⟩ := h.accounted i ⟨task, hi, haccepts⟩
  obtain ⟨task', info, htask, hname, hinfo, hport⟩ := h.task key handle hkey
  rw [hi] at htask
  obtain rfl := Option.some.inj htask
  exact ⟨info, hname ▸ hinfo, hport⟩

theorem Starting.runs (h : Starting cfg pass desired failed s) (hs : Sound s)
    (hname : name ∈ s.servicePorts) : ∃ key, s.Runs key name := by
  obtain ⟨key, handle, hkey, rfl⟩ := hs.owner name hname
  exact ⟨key, handle, hkey, rfl, (h.current key handle hkey).1⟩

/-- After every pass of a steady run the proxies are reconciled with what the pass has read. -/
theorem reconciled_after_each_pass (h : (steady cfg).Reachable s)
    (hphase : s.phase = .starting pass [] failed) : Reconciled cfg pass failed s := by
  obtain ⟨hs, htrack⟩ := onTrack_of_reachable h
  rw [OnTrack, hphase] at htrack
  have hstart : Starting cfg pass [] failed s := htrack
  constructor
  · intro name
    constructor
    · intro hname
      obtain ⟨key, handle, hkey, rfl, task, htask, haccepts⟩ := hstart.runs hs hname
      obtain ⟨task', _, htask', hserves, _⟩ := hs.task key handle hkey
      rw [htask] at htask'
      obtain rfl := Option.some.inj htask'
      exact ⟨task, List.mem_of_getElem? htask, haccepts, hserves⟩
    · rintro ⟨task, hmem, haccepts, rfl⟩
      obtain ⟨info, hinfo, _⟩ := hs.lookup_of_accepting hmem haccepts
      exact HashMap.mem_of_lookup hinfo
  · intro name hname
    obtain ⟨key, hruns⟩ := hstart.runs hs hname
    refine ⟨key, hruns, ?_⟩
    rintro key' ⟨handle', hkey', hname', _⟩
    obtain ⟨handle, hkey, hserves, _⟩ := hruns
    exact hs.unique key' key handle' handle hkey' hkey (hname'.trans hserves.symm)
  · intro task hmem haccepts
    obtain ⟨info, hinfo, hport⟩ := hs.lookup_of_accepting hmem haccepts
    rw [hinfo, Option.map_some, hport]
  · intro key handle hkey
    obtain ⟨_, d, hd, hname, hport⟩ := hstart.current key handle hkey
    obtain ⟨e, _, _, rfl⟩ := wanted_of_lookup_desired hd
    rw [hport, hname]
    rfl
  · intro e he hnot
    obtain ⟨d, hd⟩ := exists_lookup_desired he
    obtain ⟨e', he', hkey, rfl⟩ := wanted_of_lookup_desired hd
    have hname : e'.2.name = e.2.name := hstart.apart e' he' e he hkey
    rcases hstart.covered _ _ hd with hmem | hports | hfail
    · exact absurd hmem List.not_mem_nil
    · obtain ⟨key, hruns⟩ := hstart.runs hs hports
      have hruns : s.Runs key e.2.name := hname ▸ hruns
      left
      refine ⟨key, ?_, hruns⟩
      rintro rfl
      exact hnot hruns
    · exact .inr hfail

theorem steady_run (h : (steady cfg).Reachable s) (a : ManagerAct) (hsteady : s.Steady cfg a)
    (ht : (next cfg s a).isSome = true) :
    (steady cfg).Reachable (Transition.run (next cfg) s [a]) :=
  h.snoc ⟨Transition.next_eq_some_run ht, hsteady⟩

def subscriberConfig : Config := { Config.default with mode := .subscribe, nodeId := "me" }

/-- Two groups with a service of the same name, one of them asking for a port. -/
def twoGroups : Snapshot where
  dc := ⟨1, [⟨"web", [⟨"api", "n1", 9000, [], 1, none, .tcp, none, none, ∅, ∅, some 7000⟩]⟩,
    ⟨"alt", [⟨"api", "n1", 9001, [], 1, none, .tcp, none, none, ∅, ∅, none⟩]⟩], []⟩
  nodes := (∅ : NodeMap).insert "n1" ⟨"n1", "10.0.0.1:8080", none, none, .default⟩

/-- The first of the services is started, the other one finds its name taken. -/
def nameTaken : ProxyManager :=
  Transition.run (next subscriberConfig) new
    [.tick twoGroups, .removed, .start 0 (some 7000), .start 0 (some 40000)]

theorem reconciled_after_each_pass_nameTaken :
    nameTaken.phase = .starting twoGroups [] [] ∧
      Reconciled subscriberConfig twoGroups [] nameTaken := by
  have hphase : nameTaken.phase = .starting twoGroups [] [] := rfl
  have htick : Steady subscriberConfig new (.tick twoGroups) := by
    refine ⟨by unfold KeysApart; decide, ?_⟩
    intro key handle hkey
    simp [new] at hkey
  have hinit : (steady subscriberConfig).Reachable new := .of_init rfl
  have hrun : (steady subscriberConfig).Reachable nameTaken :=
    steady_run (steady_run (steady_run (steady_run hinit (.tick twoGroups) htick rfl)
      .removed trivial rfl) (.start 0 (some 7000)) trivial rfl) (.start 0 (some 40000)) trivial rfl
  exact ⟨hphase, reconciled_after_each_pass hrun hphase⟩

/-- A proxy fails to accept a connection between two passes. -/
def acceptFailed : ProxyManager :=
  Transition.run (next subscriberConfig) new
    [.tick twoGroups, .removed, .start 0 (some 7000), .start 0 none, .finish, .acceptError 0,
      .tick twoGroups, .removed, .start 0 none, .start 0 none]

/-- The pass that follows leaves the port of the ended task published. -/
theorem stale_after_acceptError :
    (system subscriberConfig).Reachable acceptFailed ∧
      acceptFailed.phase = .starting twoGroups [] [] ∧
      (acceptFailed.servicePorts.lookup "api").map (·.port) = some 7000 ∧
      (∀ task ∈ acceptFailed.tasks, task.accepting = false) ∧
      ¬Reconciled subscriberConfig twoGroups [] acceptFailed := by
  have hport : (acceptFailed.servicePorts.lookup "api").map (·.port) = some 7000 := by decide
  have hstopped : ∀ task ∈ acceptFailed.tasks, task.accepting = false := by decide
  refine ⟨⟨new, rfl, Transition.reaches_run rfl⟩, rfl, hport, hstopped, ?_⟩
  intro h
  obtain ⟨info, hinfo, _⟩ := Option.map_eq_some_iff.mp hport
  have hname : "api" ∈ acceptFailed.servicePorts := HashMap.mem_of_lookup hinfo
  obtain ⟨task, hmem, haccepts, _⟩ := (h.published "api").mp hname
  rw [hstopped task hmem] at haccepts
  cases haccepts

/-- Two services that have the key `a/b/c`. -/
def sharedKey : Snapshot where
  dc := ⟨1, [⟨"a/b", [⟨"c", "n1", 9000, [], 1, none, .tcp, none, none, ∅, ∅, none⟩]⟩,
    ⟨"a", [⟨"b/c", "n1", 9001, [], 1, none, .tcp, none, none, ∅, ∅, none⟩]⟩], []⟩
  nodes := twoGroups.nodes

def sharedKeyRun : ProxyManager :=
  Transition.run (next subscriberConfig) new [.tick sharedKey, .removed, .start 0 (some 40000)]

/-- Without an accept error, but with keys that are not apart, the second service is not started
and did not fail to bind. -/
theorem not_reconciled_sharedKeyRun : sharedKeyRun.phase = .starting sharedKey [] [] ∧
    ¬Reconciled subscriberConfig sharedKey [] sharedKeyRun := by
  refine ⟨rfl, fun h => ?_⟩
  have hrun : (system subscriberConfig).Reachable sharedKeyRun :=
    ⟨new, rfl, Transition.reaches_run rfl⟩
  have hs : Sound sharedKeyRun := sound_of_reachable hrun
  have hserves : ∀ task ∈ sharedKeyRun.tasks, task.serviceName ≠ "b/c" := by decide
  have hnot : ∀ key, ¬sharedKeyRun.Runs key "b/c" := by
    rintro key ⟨handle, hkey, hname, _⟩
    obtain ⟨task, _, htask, htaskName, _⟩ := hs.task key handle hkey
    exact hserves task (List.mem_of_getElem? htask) (htaskName.trans hname)
  have hwanted : ("a", ⟨"b/c", "n1", 9001, [], 1, none, .tcp, none, none, ∅, ∅, none⟩) ∈
      sharedKey.wanted subscriberConfig := List.mem_cons_of_mem _ List.mem_cons_self
  rcases h.missing _ hwanted (hnot _) with ⟨key, _, hruns⟩ | hfail
  · exact hnot key hruns
  · exact List.not_mem_nil hfail

end ProxyManager

end Stouter
