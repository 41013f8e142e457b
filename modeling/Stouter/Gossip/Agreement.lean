import Stouter.Gossip.Cluster

/-! # Agreement on versions

The configurations around are those in some daemon's memory or in a message.
A step adds at most one, minted by an admin mutation or adopted from a file;
every other step copies. Equal versions therefore carry equal contents as long
as no mint reuses a version that another configuration still carries, and two
daemons that mutate at the same time break exactly that.
-/

namespace Stouter.Cluster

variable {ι : Type*} {http : HttpCrate} {s t : Cluster ι} {a : ClusterAct ι}

/-- Some daemon holds the configuration or some message offers it. -/
def Carried (s : Cluster ι) (dc : DynamicConfig) : Prop :=
  (∃ i, (s.daemons i).store.memory = dc) ∨ ∃ e ∈ s.net, e.msg.config? = some dc

/-- The configuration an admin mutation or a poll adoption brings into the cluster. -/
def minted (http : HttpCrate) (s : Cluster ι) : ClusterAct ι → Option DynamicConfig
  | .admin i peerCn op _ _ =>
    let d := s.daemons i
    if adminAllowed d.config peerCn ∧ d.config.mode ≠ .subscribe then
      match op.mutate http d.store.memory with
      | (.ok _, dc) => some dc
      | (.error _, _) => none
    else none
  | .poll i loaded _ _ =>
    let st := (s.daemons i).store
    (if loaded then st.file else none).bind (Store.adopted st.memory)
  | _ => none

/-- No other configuration around has its version. -/
def Fresh (s : Cluster ι) (dc : DynamicConfig) : Prop :=
  ∀ d, Carried s d → d.version = dc.version → d = dc

theorem carried_memory (s : Cluster ι) (i : ι) : Carried s (s.daemons i).store.memory :=
  .inl ⟨i, rfl⟩

theorem carried_send {src dst : ι} {msg : Message} {dc : DynamicConfig}
    (h : Carried (s.send src dst msg) dc) : Carried s dc ∨ msg.config? = some dc := by
  rcases h with ⟨j, hj⟩ | ⟨e, he, hc⟩
  · exact .inl (.inl ⟨j, hj⟩)
  · rcases List.mem_append.mp he with he | he
    · exact .inl (.inr ⟨e, he, hc⟩)
    · obtain rfl := List.mem_singleton.mp he
      exact .inr hc

theorem admin_minted (http : HttpCrate) (s : Cluster ι) (i : ι) (peerCn : Option String)
    (op : AdminOp) (saved : Bool) (peers : List ι) :
    let st := (s.daemons i).store
    let out := handleAdminRequest http (s.daemons i).config peerCn op saved st
    out.broadcast = minted http s (.admin i peerCn op saved peers) ∧
      (out.store.memory = st.memory ∨ out.broadcast = some out.store.memory) := by
  dsimp only
  constructor
  · simp only [handleAdminRequest, minted, Store.admin]
    by_cases ha : adminAllowed (s.daemons i).config peerCn = true
    · by_cases hm : (s.daemons i).config.mode = .subscribe
      · simp [ha, hm]
      · rcases op.mutate http (s.daemons i).store.memory with ⟨_ | _, dc⟩ <;> simp [ha, hm]
    · simp [ha]
  · rcases handleAdminRequest_cases http (s.daemons i).config peerCn op saved (s.daemons i).store
      with ⟨_, _, h⟩ | ⟨dc, _, _, h⟩
    · exact .inl (by rw [h])
    · exact .inr (by rw [h])

theorem poll_minted (http : HttpCrate) (s : Cluster ι) (i : ι) (loaded saved : Bool)
    (peers : List ι) :
    let st := (s.daemons i).store
    (st.poll loaded saved).1 = minted http s (.poll i loaded saved peers) ∧
      ((st.poll loaded saved).2.memory = st.memory ∨
        (st.poll loaded saved).1 = some (st.poll loaded saved).2.memory) := by
  simp only [Store.poll, minted]
  cases (if loaded then (s.daemons i).store.file else none) with
  | none => simp
  | some file => cases hd : Store.adopted (s.daemons i).store.memory file <;> simp [hd]

def Agrees (s : Cluster ι) : Prop :=
  ∀ c d, Carried s c → Carried s d → c.version = d.version → c = d

theorem Started.agrees (h : Started s) : Agrees s := by
  obtain ⟨hnet, dc, hd⟩ := h
  have hall : ∀ c, Carried s c → c = dc := by
    rintro c (⟨i, rfl⟩ | ⟨e, he, _⟩)
    · rw [(hd i).1]
    · simp [hnet] at he
  intro c d hc hd _
  rw [hall c hc, hall d hd]

variable [DecidableEq ι]

theorem carried_setDaemon {i : ι} {d : Daemon} {dc : DynamicConfig}
    (h : Carried (s.setDaemon i d) dc) : Carried s dc ∨ d.store.memory = dc := by
  rcases h with ⟨j, hj⟩ | ⟨e, he, hc⟩
  · by_cases hij : j = i
    · subst hij
      exact .inr (by simpa [setDaemon] using hj)
    · exact .inl (.inl ⟨j, by simpa [setDaemon, hij] using hj⟩)
  · exact .inl (.inr ⟨e, he, hc⟩)

theorem carried_setDaemon_same {i : ι} {d : Daemon} {dc : DynamicConfig}
    (h : Carried (s.setDaemon i d) dc) (hd : d.store.memory = (s.daemons i).store.memory) :
    Carried s dc := by
  rcases carried_setDaemon h with h | h
  · exact h
  · exact .inl ⟨i, hd.symm.trans h⟩

theorem carried_announce {i : ι} {peers : List ι} {store : Store} {config : Option DynamicConfig}
    {dc : DynamicConfig} (h : Carried (s.announce i peers store config) dc) :
    Carried s dc ∨ store.memory = dc ∨ config = some dc := by
  rcases h with ⟨j, hj⟩ | ⟨e, he, hc⟩
  · rw [announce_daemons] at hj
    split_ifs at hj
    · exact .inr (.inl hj)
    · exact .inl (.inl ⟨j, hj⟩)
  · rcases mem_announce_net he with he | ⟨_, c, rfl, hm⟩
    · exact .inl (.inr ⟨e, he, hc⟩)
    · rw [hm] at hc
      exact .inr (.inr hc)

theorem carried_announced {i : ι} {peers : List ι} {store : Store} {config : Option DynamicConfig}
    {dc : DynamicConfig} (h : Carried (s.announce i peers store config) dc)
    (hm : store.memory = (s.daemons i).store.memory ∨ config = some store.memory) :
    Carried s dc ∨ config = some dc := by
  rcases carried_announce h with h | rfl | h
  · exact .inl h
  · exact hm.imp_left fun he => .inl ⟨i, he.symm⟩
  · exact .inr h

/-- A step carries nothing but what was carried before and what it mints. -/
theorem carried_next {dc : DynamicConfig} (h : next http s a = some t) (hc : Carried t dc) :
    Carried s dc ∨ minted http s a = some dc := by
  cases a with
  | admin i peerCn op saved peers =>
    obtain rfl := Option.some.inj h
    obtain ⟨hb, hm⟩ := admin_minted http s i peerCn op saved peers
    rw [← hb]
    exact carried_announced hc hm
  | poll i loaded saved peers =>
    obtain rfl := Option.some.inj h
    obtain ⟨hb, hm⟩ := poll_minted http s i loaded saved peers
    rw [← hb]
    exact carried_announced hc hm
  | edit i file =>
    obtain rfl := Option.some.inj h
    exact .inl (carried_setDaemon_same hc rfl)
  | persist i saved =>
    obtain rfl := Option.some.inj h
    exact .inl (carried_setDaemon_same hc rfl)
  | publishHealth i health =>
    obtain rfl := Option.some.inj h
    exact .inl (carried_setDaemon_same hc rfl)
  | sendSync i dst nodes =>
    unfold next at h
    dsimp only at h
    split_ifs at h
    obtain rfl := Option.some.inj h
    rcases carried_send hc with hc | hm
    · exact .inl hc
    · exact .inl (.inl ⟨i, Option.some.inj hm⟩)
  | sendJoin i dst =>
    obtain rfl := Option.some.inj h
    exact (carried_send hc).imp_right fun hm => by simp [Message.config?] at hm
  | sendLeave i dst =>
    unfold next at h
    dsimp only at h
    split_ifs at h
    obtain rfl := Option.some.inj h
    exact (carried_send hc).imp_right fun hm => by simp [Message.config?] at hm
  | sendReverse i dst timestampMs =>
    obtain rfl := Option.some.inj h
    exact (carried_send hc).imp_right fun hm => by simp [Message.config?] at hm
  | mergeConfig k saved =>
    obtain ⟨e, he, hm⟩ := Option.bind_eq_some_iff.mp h
    obtain ⟨config, hconf, rfl⟩ := Option.map_eq_some_iff.mp hm
    left
    rcases carried_setDaemon hc with hc | hc
    · exact hc
    · -- The merged memory is the old one or the configuration of the message.
      unfold Store.merge at hc
      dsimp only at hc
      split_ifs at hc
      · exact .inr ⟨e, List.mem_of_getElem? he, hconf.trans (congrArg some hc)⟩
      · exact .inl ⟨e.dst, hc⟩
  | mergeNodes k conn contact now =>
    obtain ⟨e, he, hm⟩ := Option.bind_eq_some_iff.mp h
    obtain ⟨nodes, _, rfl⟩ := Option.map_eq_some_iff.mp hm
    exact .inl (carried_setDaemon_same hc rfl)
  | control k now =>
    obtain ⟨e, _, rfl⟩ := Option.map_eq_some_iff.mp h
    exact .inl (carried_setDaemon_same hc rfl)
  | lose k =>
    obtain rfl := Option.some.inj h
    rcases hc with hm | ⟨e, he, hc⟩
    · exact .inl (.inl hm)
    · exact .inl (.inr ⟨e, List.mem_of_mem_eraseIdx he, hc⟩)

theorem Agrees.step (hs : Agrees s) (h : next http s a = some t)
    (hf : ∀ dc ∈ minted http s a, Fresh s dc) : Agrees t := by
  intro c d hc hd hv
  rcases carried_next h hc with hc | hc <;> rcases carried_next h hd with hd | hd
  · exact hs c d hc hd hv
  · exact hf d hd c hc hv
  · exact (hf c hc d hd hv.symm).symm
  · exact Option.some.inj (hc.symm.trans hd)

/-- The runs in which no admin mutation or poll adoption reuses the version of another
configuration that some daemon holds or some message in flight offers. -/
def freshMints (http : HttpCrate) : Transition (Cluster ι) (ClusterAct ι) :=
  (system http).restrict fun s a _ => ∀ dc ∈ minted http s a, Fresh s dc

theorem agrees_of_fresh_mints (h : (freshMints http).Reachable s) : Agrees s := by
  apply h.invariant (I := Agrees) (fun _ => Started.agrees)
  rintro s a t hs ⟨h, hf⟩
  exact hs.step h hf

/-- In runs with fresh mints, daemons at the same version hold the same configuration. -/
theorem agreement_of_fresh_mints (h : (freshMints http).Reachable s) (i j : ι)
    (hv : (s.daemons i).store.memory.version = (s.daemons j).store.memory.version) :
    (s.daemons i).store.memory = (s.daemons j).store.memory :=
  agrees_of_fresh_mints h _ _ (carried_memory s i) (carried_memory s j) hv

/-- A daemon at version 5 that takes admin requests from `ops`. -/
def opsDaemon : Daemon where
  config := { Config.default with adminCns := ["ops"] }
  store := ⟨⟨5, [], []⟩, some ⟨5, [], []⟩⟩
  knownNodes := ∅
  localHealth := .default

def opsPair : Cluster Bool := ⟨fun _ => opsDaemon, []⟩

theorem started_opsPair : Started opsPair := ⟨rfl, _, fun _ => ⟨rfl, rfl, rfl⟩⟩

def opsAdd (i : Bool) (name : String) (peer : Bool) : ClusterAct Bool :=
  .admin i (some "ops") (.plainAdd "g" name "n" 80) true [peer]

theorem agreement_opsPair :
    ∃ s : Cluster Bool, (freshMints plainHttp).Reachable s ∧
      (s.daemons true).store.memory.version = 6 ∧
      (s.daemons false).store.memory = (s.daemons true).store.memory := by
  have hfresh : ∀ dc ∈ minted plainHttp opsPair (opsAdd false "a" true), Fresh opsPair dc := by
    rintro dc hdc d (⟨i, rfl⟩ | ⟨e, he, _⟩) hv
    · obtain rfl := Option.some.inj hdc
      cases i <;> exact absurd hv (by decide)
    · cases he
  have h₁ := (Transition.Reachable.of_init (S := freshMints plainHttp) started_opsPair).snoc
    (a := opsAdd false "a" true) ⟨rfl, hfresh⟩
  have h₂ := h₁.snoc (a := ClusterAct.mergeConfig 0 true) ⟨rfl, by simp [minted]⟩
  exact ⟨_, h₂, by decide, agreement_of_fresh_mints h₂ false true (by decide)⟩

/-- Two daemons that mutate at the same time end at one version with different contents. -/
theorem diverged_opsPair :
    ∃ s : Cluster Bool, (system plainHttp).Reachable s ∧
      (s.daemons false).store.memory.version = (s.daemons true).store.memory.version ∧
      (s.daemons false).store.memory.serviceGroups ≠
        (s.daemons true).store.memory.serviceGroups := by
  have h₁ := (Transition.Reachable.of_init (S := system plainHttp) started_opsPair).snoc
    (a := opsAdd false "a" true) rfl
  have h₂ := h₁.snoc (a := opsAdd true "b" false) rfl
  exact ⟨_, h₂, by decide, by decide⟩

end Stouter.Cluster
