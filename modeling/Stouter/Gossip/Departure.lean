import Stouter.Gossip.Steps

/-! # Departed nodes

A `NodeLeave` removes one entry of one table, while every `Sync` relays the
whole table of its sender. After the leave a node therefore stays out of a
daemon's table exactly when nobody else lists it any more and no message that
would enter it is on its way to a daemon that can pass it on.
-/

namespace Stouter

/-- The receiver of the message ends up with the id in its table. -/
def Message.Enters (id : String) : Message → Prop
  | .sync _ nodes => isValidNodeId id ∧ id ∈ nodes.map NodeInfo.id
  | .nodeJoin joined _ => isValidNodeId id ∧ joined = id
  | .reverseRegistration registered _ => registered = id
  | _ => False

namespace Cluster

variable {ι : Type*} [DecidableEq ι] {http : HttpCrate} {s t : Cluster ι} {a : ClusterAct ι}
  {id : String} {p i : ι} {e : Envelope ι}

def Receives (d : Daemon) (msg : Message) (kn : NodeMap) : Prop :=
  (∃ config nodes conn contact now, msg = .sync config nodes ∧
    kn = (Stouter.mergeNodes d.config.nodeId
      (if conn.isEmpty then nodes else fixUnroutableAddrs conn nodes) contact now d.knownNodes).1) ∨
    ∃ now, kn = applyControl d now msg

theorem Receives.mem {d : Daemon} {msg : Message} {kn : NodeMap} (h : Receives d msg kn)
    (hx : id ∈ kn) : id ∈ d.knownNodes ∨ msg.Enters id := by
  rcases h with ⟨config, nodes, conn, contact, now, rfl, rfl⟩ | ⟨now, rfl⟩
  · rw [mem_mergeNodes] at hx
    apply hx.imp_right
    rintro ⟨hv, node, hn, rfl⟩
    refine ⟨hv, ?_⟩
    have hmem := List.mem_map_of_mem (f := NodeInfo.id) hn
    split_ifs at hmem
    · exact hmem
    · rwa [fixUnroutableAddrs_ids] at hmem
  · cases msg with
    | nodeJoin joined addr => exact mem_applyNodeJoin.mp hx
    | nodeLeave left => exact .inl (AList.mem_erase.mp hx).2
    | reverseRegistration registered timestampMs =>
      exact (mem_registerReverse.mp hx).elim (fun h => .inr h.symm) .inl
    | _ => exact .inl hx

theorem table_next (h : next http s a = some t) (i : ι) :
    (t.daemons i).knownNodes = (s.daemons i).knownNodes ∨
      ∃ k e, a.delivery? = some k ∧ s.net[k]? = some e ∧ e.dst = i ∧
        Receives (s.daemons i) e.msg (t.daemons i).knownNodes := by
  rcases daemon_cases h i with ⟨hs, _⟩ | ⟨_, _, hd⟩ |
    ⟨k, conn, contact, now, _, _, _, rfl, he, hd⟩ | ⟨k, now, _, _, rfl, he, hd⟩
  · exact .inl hs.2.1
  · exact .inl (by rw [hd])
  · rw [hd]
    exact .inr ⟨k, _, rfl, he, rfl, .inl ⟨_, _, conn, contact, now, rfl, rfl⟩⟩
  · rw [hd]
    exact .inr ⟨k, _, rfl, he, rfl, .inr ⟨now, rfl⟩⟩

theorem knows_next (h : next http s a = some t) (hx : id ∈ (t.daemons i).knownNodes) :
    id ∈ (s.daemons i).knownNodes ∨
      ∃ k e, a.delivery? = some k ∧ s.net[k]? = some e ∧ e.dst = i ∧ e.msg.Enters id := by
  rcases table_next h i with hk | ⟨k, e, ha, he, hi, hr⟩
  · rw [hk] at hx
    exact .inl hx
  · exact (hr.mem hx).imp_right fun hm => ⟨k, e, ha, he, hi, hm⟩

/-- Tables stand under their ids, and only an id's own process sends what enters an invalid id. -/
structure Sound (s : Cluster ι) : Prop where
  keyed : ∀ i, Keyed (s.daemons i).knownNodes
  signed : ∀ e ∈ s.net, ∀ id, e.msg.Enters id →
    isValidNodeId id ∨ (s.daemons e.src).config.nodeId = id

theorem Sent.enters {d : Daemon} {msg : Message} (h : Sent d msg) (hk : Keyed d.knownNodes)
    (hx : msg.Enters id) : isValidNodeId id ∧ id ∈ d.knownNodes ∨ d.config.nodeId = id := by
  cases msg with
  | sync config nodes =>
    obtain ⟨hv, hx⟩ := hx
    have hmem := (h.2.map NodeInfo.id).mem_iff.mp hx
    rw [mem_snapshotNodes_ids hk] at hmem
    exact hmem.imp (fun hk => ⟨hv, hk⟩) fun hself => hself.2.symm
  | nodeJoin joined addr => exact .inr (h.1.symm.trans hx.2)
  | reverseRegistration registered timestampMs => exact .inr (Eq.trans (Eq.symm h) hx)
  | _ => exact hx.elim

theorem net_next (hs : Sound s) (h : next http s a = some t) (he : e ∈ t.net) :
    e ∈ s.net ∨ a.sender? = some e.src ∧ ∀ id, e.msg.Enters id →
      isValidNodeId id ∧ id ∈ (s.daemons e.src).knownNodes ∨
        (s.daemons e.src).config.nodeId = id :=
  (sent_next h he).imp_right fun ⟨ha, hm⟩ => ⟨ha, fun _ => hm.enters (hs.keyed e.src)⟩

theorem Sound.next (hs : Sound s) (h : next http s a = some t) : Sound t := by
  refine ⟨keyed_next hs.keyed h, fun e he id hx => ?_⟩
  rw [config_next h e.src]
  rcases net_next hs h he with he | ⟨_, hm⟩
  · exact hs.signed e he id hx
  · exact (hm id hx).imp_left And.left

theorem sound_of_reachable (h : (system http).Reachable s) : Sound s := by
  refine h.invariant (I := Sound) ?_ fun _ _ _ hs h => hs.next h
  intro s hs
  refine ⟨hs.booted.all _, fun e he => ?_⟩
  simp [hs.1] at he

/-! ## After the leave -/

/-- The runs in which no process of the departed node sends and none of its messages that are
still in flight reaches `p`. -/
def departed (http : HttpCrate) (id : String) (p : ι) : Transition (Cluster ι) (ClusterAct ι) :=
  (system http).restrict fun s a _ =>
    (∀ i, a.sender? = some i → (s.daemons i).config.nodeId ≠ id) ∧
      ∀ k e, a.delivery? = some k → s.net[k]? = some e → e.dst = p →
        (s.daemons e.src).config.nodeId ≠ id

/-- No daemon other than `p` and the node's own process lists the node, and a message that would
enter it goes to that process, or comes from it and goes to `p`. -/
def Forgotten (id : String) (p : ι) (s : Cluster ι) : Prop :=
  isValidNodeId id →
    (∀ i, i ≠ p → (s.daemons i).config.nodeId ≠ id → id ∉ (s.daemons i).knownNodes) ∧
      ∀ e ∈ s.net, e.msg.Enters id →
        (s.daemons e.dst).config.nodeId = id ∨ e.dst = p ∧ (s.daemons e.src).config.nodeId = id

/-- The invariant of the runs after the leave. -/
structure Absent (id : String) (p : ι) (s : Cluster ι) : Prop where
  sound : Sound s
  other : (s.daemons p).config.nodeId ≠ id
  absent : id ∉ (s.daemons p).knownNodes
  forgotten : Forgotten id p s

theorem Absent.step (hs : Absent id p s) (h : (departed http id p).step s a t) : Absent id p t := by
  obtain ⟨hn : next http s a = some t, hsend, hdeliver⟩ := h
  have hconf := config_next hn
  refine ⟨hs.sound.next hn, ?_, ?_, ?_⟩
  · rw [hconf]
    exact hs.other
  · intro hx
    rcases knows_next hn hx with hx | ⟨k, e, ha, he, hi, hm⟩
    · exact hs.absent hx
    · have hsrc := hdeliver k e ha he hi
      have hmem := List.mem_of_getElem? he
      have hv := (hs.sound.signed e hmem id hm).resolve_right hsrc
      rcases (hs.forgotten hv).2 e hmem hm with hd | ⟨_, hd⟩
      · exact hs.other (hi ▸ hd)
      · exact hsrc hd
  · intro hv
    obtain ⟨htab, hnet⟩ := hs.forgotten hv
    constructor
    · intro i hip hi hx
      rw [hconf] at hi
      rcases knows_next hn hx with hx | ⟨k, e, _, he, rfl, hm⟩
      · exact htab i hip hi hx
      · rcases hnet e (List.mem_of_getElem? he) hm with hd | ⟨hd, _⟩
        · exact hi hd
        · exact hip hd
    · intro e he hm
      rw [hconf, hconf]
      rcases net_next hs.sound hn he with he | ⟨ha, hm'⟩
      · exact hnet e he hm
      · -- A sender other than the departed process does not list the node.
        have hsrc := hsend e.src ha
        have hk := ((hm' id hm).resolve_right hsrc).2
        by_cases hp : e.src = p
        · exact absurd (hp ▸ hk) hs.absent
        · exact absurd hk (htab e.src hp hsrc)

theorem deliver_enters (http : HttpCrate) {k : ℕ} (hk : s.net[k]? = some e) (hm : e.msg.Enters id) :
    ∃ a t, a.sender? = none ∧ a.delivery? = some k ∧ next http s a = some t ∧
      id ∈ (t.daemons e.dst).knownNodes := by
  cases hmsg : e.msg with
  | sync config nodes =>
    rw [hmsg] at hm
    obtain ⟨node, hn, hid⟩ := List.mem_map.mp hm.2
    have hnodes : e.msg.nodes? = some nodes := by rw [hmsg]; rfl
    refine ⟨.mergeNodes k "" none 0, _, rfl, rfl, Option.bind_eq_some_iff.mpr
      ⟨e, hk, Option.map_eq_some_iff.mpr ⟨nodes, hnodes, rfl⟩⟩, ?_⟩
    rw [setDaemon_daemons, if_pos rfl]
    exact mem_mergeNodes.mpr (.inr ⟨hm.1, node, hn, hid⟩)
  | nodeJoin joined addr =>
    rw [hmsg] at hm
    refine ⟨.control k 0, _, rfl, rfl, Option.map_eq_some_iff.mpr ⟨e, hk, rfl⟩, ?_⟩
    rw [setDaemon_daemons, if_pos rfl, hmsg]
    exact mem_applyNodeJoin.mpr (.inr hm)
  | reverseRegistration registered timestampMs =>
    rw [hmsg] at hm
    refine ⟨.control k 0, _, rfl, rfl, Option.map_eq_some_iff.mpr ⟨e, hk, rfl⟩, ?_⟩
    rw [setDaemon_daemons, if_pos rfl, hmsg]
    exact mem_registerReverse.mpr (.inl hm.symm)
  | _ =>
    rw [hmsg] at hm
    exact hm.elim

/-- A daemon that still lists the node brings it back with its next `Sync`. -/
theorem returns_of_known (http : HttpCrate) (p : ι) (hs : Sound s) (hv : isValidNodeId id)
    (hi : (s.daemons i).config.nodeId ≠ id) (hx : id ∈ (s.daemons i).knownNodes) :
    ∃ u, (departed http id p).Reaches s u ∧ id ∈ (u.daemons p).knownNodes := by
  let nodes := snapshotNodes (s.daemons i).config (s.daemons i).localHealth (s.daemons i).knownNodes
  let e : Envelope ι := ⟨i, p, .sync (s.daemons i).store.memory nodes⟩
  have hsend : next http s (.sendSync i p nodes) = some (s.send i p e.msg) :=
    if_pos (List.Perm.refl _)
  have hm : e.msg.Enters id := ⟨hv, (mem_snapshotNodes_ids (hs.keyed i) _ _).mpr (.inl hx)⟩
  have hk : (s.send i p e.msg).net[s.net.length]? = some e := by simp [send, e]
  obtain ⟨a, u, ha, hd, hu, hmem⟩ := deliver_enters http hk hm
  refine ⟨u, .head (a := .sendSync i p nodes) ⟨hsend, ?_, by simp [ClusterAct.delivery?]⟩
    (.head (a := a) ⟨hu, by simp [ha], ?_⟩ (.refl u)), hmem⟩
  · intro j hj
    obtain rfl := Option.some.inj hj
    exact hi
  · intro k e' hk' he' _
    obtain rfl : s.net.length = k := Option.some.inj (hd.symm.trans hk')
    obtain rfl : e = e' := Option.some.inj (hk.symm.trans he')
    exact hi

/-- A message on its way to a daemon that can pass the node on brings it back. -/
theorem returns_of_message (http : HttpCrate) (hs : Sound s) (hv : isValidNodeId id)
    (he : e ∈ s.net) (hm : e.msg.Enters id) (hdst : (s.daemons e.dst).config.nodeId ≠ id)
    (hsrc : e.dst = p → (s.daemons e.src).config.nodeId ≠ id) :
    ∃ u, (departed http id p).Reaches s u ∧ id ∈ (u.daemons p).knownNodes := by
  obtain ⟨k, hk⟩ := List.mem_iff_getElem?.mp he
  obtain ⟨a, t, ha, hd, ht, hmem⟩ := deliver_enters http hk hm
  have hstep : (departed http id p).step s a t := by
    refine ⟨ht, by simp [ha], fun k' e' hk' he' hp => ?_⟩
    obtain rfl : k = k' := Option.some.inj (hd.symm.trans hk')
    obtain rfl : e = e' := Option.some.inj (hk.symm.trans he')
    exact hsrc hp
  obtain ⟨u, hu, hx⟩ := returns_of_known http p (hs.next ht) hv
    (by rw [config_next ht e.dst]; exact hdst) hmem
  exact ⟨u, .head hstep hu, hx⟩

/-- After `p` processed the leave, the node stays out of its table in every run that follows
exactly when the rest of the cluster had forgotten the node before. -/
theorem stays_departed_iff {k : ℕ} {src : ι} {now : Instant} (hs : (system http).Reachable s)
    (hp : (s.daemons p).config.nodeId ≠ id) (hk : s.net[k]? = some ⟨src, p, .nodeLeave id⟩)
    (ht : next http s (.control k now) = some t) :
    (∀ u, (departed http id p).Reaches t u → id ∉ (u.daemons p).knownNodes) ↔
      Forgotten id p s := by
  have hsound := (sound_of_reachable hs).next ht
  have hconf := config_next ht
  have hset : t = s.setDaemon p
      { s.daemons p with knownNodes := applyNodeLeave id (s.daemons p).knownNodes } := by
    simpa [next, hk, applyControl] using ht.symm
  have hnet : t.net = s.net := by rw [hset, setDaemon_net]
  have hother : ∀ i, i ≠ p → (t.daemons i).knownNodes = (s.daemons i).knownNodes := by
    intro i hi
    rw [hset, setDaemon_daemons, if_neg hi]
  constructor
  · intro hu hv
    constructor
    · intro i hip hi hx
      rw [← hother i hip] at hx
      rw [← hconf] at hi
      obtain ⟨u, hr, hmem⟩ := returns_of_known http p hsound hv hi hx
      exact hu u hr hmem
    · intro e he hm
      rw [← hconf, ← hconf]
      by_contra hne
      obtain ⟨hdst, hsrc⟩ := not_or.mp hne
      obtain ⟨u, hr, hmem⟩ := returns_of_message http (p := p) hsound hv
        (hnet ▸ he) hm hdst fun hp h => hsrc ⟨hp, h⟩
      exact hu u hr hmem
  · intro hf u hr
    have habsent : Absent id p t := by
      refine ⟨hsound, by rw [hconf]; exact hp, ?_, ?_⟩
      · rw [hset, setDaemon_daemons, if_pos rfl]
        simp [applyNodeLeave, AList.mem_erase]
      · intro hv
        obtain ⟨htab, hmsg⟩ := hf hv
        constructor
        · intro i hip hi
          rw [hother i hip]
          exact htab i hip (hconf i ▸ hi)
        · intro e he hm
          rw [hconf, hconf]
          exact hmsg e (hnet ▸ he) hm
    exact (hr.preserves (I := Absent id p) (fun _ _ _ hs h => hs.step h) habsent).absent

def leavingP : Cluster (Fin 3) :=
  Transition.run (next plainHttp) trio [.sendJoin 2 0, .control 0 3, .sendLeave 2 0]

theorem stays_departed_leavingP :
    (system plainHttp).Reachable leavingP ∧ "x" ∈ (leavingP.daemons 0).knownNodes ∧
      ∃ t, next plainHttp leavingP (.control 1 7) = some t ∧
        ∀ u, (departed plainHttp "x" 0).Reaches t u → "x" ∉ (u.daemons 0).knownNodes := by
  have hr : (system plainHttp).Reachable leavingP :=
    ⟨trio, started_trio, Transition.reaches_run rfl⟩
  have hf : Forgotten "x" 0 leavingP := by
    refine fun _ => ⟨by decide, ?_⟩
    rintro e he -
    rcases List.mem_pair.mp he with rfl | rfl
    · exact .inr ⟨rfl, by decide⟩
    · exact .inr ⟨rfl, by decide⟩
  have hk : leavingP.net[1]? = some ⟨2, 0, .nodeLeave "x"⟩ := rfl
  exact ⟨hr, by decide, _, rfl, (stays_departed_iff hr (by decide) hk rfl).mpr hf⟩

def leavingPQ : Cluster (Fin 3) :=
  Transition.run (next plainHttp) trio [.sendJoin 2 0, .sendJoin 2 1, .control 0 3, .control 1 4,
    .sendLeave 2 0, .sendLeave 2 1]

def leftP : Cluster (Fin 3) := Transition.run (next plainHttp) leavingPQ [.control 2 7]

def staleNodes : List NodeInfo :=
  [⟨"x", "10.0.0.1:8080", none, some 4, .default⟩, ⟨"q", "10.0.0.1:8080", none, none, .default⟩]

def staleSync : Cluster (Fin 3) :=
  Transition.run (next plainHttp) leftP [.sendSync 1 0 staleNodes]

/-- A `Sync` of `q` brings `x` back as a node that `p` has just seen. -/
theorem returns_leftP :
    (system plainHttp).Reachable leavingPQ ∧ (leavingPQ.daemons 0).config.nodeId = "p" ∧
      leavingPQ.net[2]? = some ⟨2, 0, .nodeLeave "x"⟩ ∧
      next plainHttp leavingPQ (.control 2 7) = some leftP ∧ "x" ∉ (leftP.daemons 0).knownNodes ∧
      ∃ u node, (departed plainHttp "x" 0).Reaches leftP u ∧
        (u.daemons 0).knownNodes.lookup "x" = some node ∧ node.lastSeen = some 8 := by
  have h₁ : (departed plainHttp "x" 0).step leftP (.sendSync 1 0 staleNodes) staleSync :=
    ⟨rfl, by rintro i ⟨⟩; decide, by rintro k e ⟨⟩⟩
  have h₂ := (Transition.Reaches.refl leftP).snoc h₁ |>.snoc
    (a := ClusterAct.mergeNodes 4 "" none 8) ⟨rfl, by rintro i ⟨⟩, by rintro k e ⟨⟩ ⟨⟩ _; decide⟩
  exact ⟨⟨trio, started_trio, Transition.reaches_run rfl⟩, rfl, rfl, rfl, by decide,
    _, _, h₂, rfl, rfl⟩

end Cluster

end Stouter
