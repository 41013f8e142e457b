import Stouter.Gossip.Agreement
import Stouter.Gossip.Steps
import Mathlib.Data.Finset.Basic
import Mathlib.Data.Fintype.EquivFin

/-! # Convergence of the configuration

Which daemons have heard of a configuration that one of them holds: they got
it in a message, or a message of a daemon that had heard of it before. The
messages may be lost, overtake each other and arrive twice. A daemon that has
heard of a configuration never falls behind its version, and while nobody
changes the configuration, those that heard of the newest one hold it.
-/

namespace Stouter

/-! ## Versions along a step -/

namespace Cluster

variable {ι : Type*} {http : HttpCrate} {s t : Cluster ι} {a : ClusterAct ι} {i j : ι}

def version (s : Cluster ι) (i : ι) : UInt64 := (s.daemons i).store.memory.version

/-- A change that the step makes is not made at the last version. -/
def Rises (http : HttpCrate) (s : Cluster ι) (a : ClusterAct ι) : Prop :=
  ∀ i, a.sender? = some i → minted http s a ≠ none → s.version i ≠ maxVersion

theorem version_le_minted {dc : DynamicConfig} (hr : Rises http s a) (hi : a.sender? = some i)
    (hm : minted http s a = some dc) : s.version i ≤ dc.version := by
  have hv := hr i hi (by rw [hm]; exact Option.some_ne_none dc)
  cases a with
  | admin k peerCn op saved peers =>
    obtain rfl := Option.some.inj hi
    obtain ⟨hb, -⟩ := admin_minted http s k peerCn op saved peers
    rcases handleAdminRequest_cases http (s.daemons k).config peerCn op saved (s.daemons k).store
      with ⟨_, _, h⟩ | ⟨dc', _, hver, h⟩
    · rw [← hb, h] at hm
      cases hm
    · rw [← hb, h] at hm
      obtain rfl := Option.some.inj hm
      rw [hver]
      exact UInt64.le_of_lt (version_lt_succ hv)
  | poll k loaded saved peers =>
    obtain rfl := Option.some.inj hi
    obtain ⟨file, -, had⟩ := Option.bind_eq_some_iff.mp hm
    exact UInt64.le_of_lt (Store.adopted_version had hv)
  | _ => cases hm

/-- How a step grows the network: the sender's messages offer nothing below its own version. -/
def Grown (s t : Cluster ι) (a : ClusterAct ι) : Prop :=
  ∃ more, t.net = s.net ++ more ∧ ∀ e ∈ more, a.sender? = some e.src ∧
    ∀ dc, e.msg.config? = some dc → s.version e.src ≤ dc.version

theorem grown_send {msg : Message} {dst : ι} (hs : a.sender? = some i)
    (hm : ∀ dc, msg.config? = some dc → s.version i ≤ dc.version) :
    (∀ j, s.version j ≤ (s.send i dst msg).version j) ∧ Grown s (s.send i dst msg) a := by
  refine ⟨fun j => UInt64.le_refl _, _, rfl, fun e he => ?_⟩
  obtain rfl := List.mem_singleton.mp he
  exact ⟨hs, hm⟩

variable [DecidableEq ι]

theorem version_setDaemon (s : Cluster ι) (d : Daemon) :
    (s.setDaemon i d).version j = if j = i then d.store.memory.version else s.version j := by
  unfold version
  rw [setDaemon_daemons]
  split_ifs <;> rfl

theorem version_announce (peers : List ι) (store : Store) (config : Option DynamicConfig) :
    (s.announce i peers store config).version j =
      if j = i then store.memory.version else s.version j := by
  unfold version
  rw [announce_daemons]
  split_ifs <;> rfl

theorem grown_announce {peers : List ι} {store : Store} {config : Option DynamicConfig}
    (hs : a.sender? = some i) (hdc : ∀ dc, config = some dc → s.version i ≤ dc.version)
    (hm : store.memory = (s.daemons i).store.memory ∨ config = some store.memory) :
    (∀ j, s.version j ≤ (s.announce i peers store config).version j) ∧
      Grown s (s.announce i peers store config) a := by
  constructor
  · intro j
    rw [version_announce]
    split_ifs with hj
    · subst hj
      rcases hm with hm | hm
      · rw [hm]
        exact UInt64.le_refl _
      · exact hdc _ hm
    · exact UInt64.le_refl _
  · cases config with
    | none => exact ⟨[], (List.append_nil _).symm, by simp⟩
    | some dc =>
      refine ⟨_, rfl, fun e he => ?_⟩
      obtain ⟨dst, -, rfl⟩ := List.mem_map.mp he
      refine ⟨hs, fun dc' hdc' => ?_⟩
      obtain rfl : dc = dc' := Option.some.inj hdc'
      exact hdc dc rfl

theorem grown_setDaemon {d : Daemon} (hd : s.version i ≤ d.store.memory.version) :
    (∀ j, s.version j ≤ (s.setDaemon i d).version j) ∧ Grown s (s.setDaemon i d) a := by
  refine ⟨fun j => ?_, [], (List.append_nil _).symm, by simp⟩
  rw [version_setDaemon]
  split_ifs with hj
  · subst hj
    exact hd
  · exact UInt64.le_refl _

theorem grown_memory {d : Daemon} (hd : d.store.memory = (s.daemons i).store.memory) :
    (∀ j, s.version j ≤ (s.setDaemon i d).version j) ∧ Grown s (s.setDaemon i d) a := by
  apply grown_setDaemon
  rw [hd]
  exact UInt64.le_refl _

theorem le_version_merge (config : DynamicConfig) (saved : Bool) (st : Store) :
    st.memory.version ≤ (st.merge config saved).memory.version ∧
      config.version ≤ (st.merge config saved).memory.version := by
  unfold Store.merge
  split_ifs with h
  · exact ⟨UInt64.le_of_lt h, UInt64.le_refl _⟩
  · exact ⟨UInt64.le_refl _, UInt64.not_lt.mp h⟩

/-- No version falls, and the network grows by messages that offer nothing below the version of
their sender, or loses a message. -/
theorem versions_next (hr : Rises http s a) (h : next http s a = some t) :
    (∀ j, s.version j ≤ t.version j) ∧
      ((∃ k, a = .lose k ∧ t.net = s.net.eraseIdx k) ∨ Grown s t a) := by
  cases a with
  | admin k peerCn op saved peers =>
    obtain rfl := Option.some.inj h
    obtain ⟨hb, hm⟩ := admin_minted http s k peerCn op saved peers
    exact (grown_announce rfl (fun dc hdc => version_le_minted hr rfl (hb ▸ hdc)) hm).imp_right .inr
  | poll k loaded saved peers =>
    obtain rfl := Option.some.inj h
    obtain ⟨hb, hm⟩ := poll_minted http s k loaded saved peers
    exact (grown_announce rfl (fun dc hdc => version_le_minted hr rfl (hb ▸ hdc)) hm).imp_right .inr
  | edit k file =>
    obtain rfl := Option.some.inj h
    refine (grown_memory ?_).imp_right .inr
    rfl
  | persist k saved =>
    obtain rfl := Option.some.inj h
    refine (grown_memory ?_).imp_right .inr
    rfl
  | publishHealth k health =>
    obtain rfl := Option.some.inj h
    refine (grown_memory ?_).imp_right .inr
    rfl
  | sendSync k dst nodes =>
    unfold next at h
    dsimp only at h
    split_ifs at h
    obtain rfl := Option.some.inj h
    refine (grown_send rfl fun dc hdc => ?_).imp_right .inr
    obtain rfl : (s.daemons k).store.memory = dc := Option.some.inj hdc
    exact UInt64.le_refl _
  | sendJoin k dst =>
    obtain rfl := Option.some.inj h
    exact (grown_send rfl fun dc hdc => by cases hdc).imp_right .inr
  | sendLeave k dst =>
    unfold next at h
    dsimp only at h
    split_ifs at h
    obtain rfl := Option.some.inj h
    exact (grown_send rfl fun dc hdc => by cases hdc).imp_right .inr
  | sendReverse k dst timestampMs =>
    obtain rfl := Option.some.inj h
    exact (grown_send rfl fun dc hdc => by cases hdc).imp_right .inr
  | mergeConfig k saved =>
    obtain ⟨e, -, hm⟩ := Option.bind_eq_some_iff.mp h
    obtain ⟨config, -, rfl⟩ := Option.map_eq_some_iff.mp hm
    refine (grown_setDaemon ?_).imp_right .inr
    exact (le_version_merge config saved _).1
  | mergeNodes k conn contact now =>
    obtain ⟨e, -, hm⟩ := Option.bind_eq_some_iff.mp h
    obtain ⟨nodes, -, rfl⟩ := Option.map_eq_some_iff.mp hm
    refine (grown_memory ?_).imp_right .inr
    rfl
  | control k now =>
    obtain ⟨e, -, rfl⟩ := Option.map_eq_some_iff.mp h
    refine (grown_memory ?_).imp_right .inr
    rfl
  | lose k =>
    obtain rfl := Option.some.inj h
    exact ⟨fun j => UInt64.le_refl _, .inl ⟨k, rfl, rfl⟩⟩

end Cluster

/-! ## Who has heard of a configuration -/

/-- A cluster with what its run has spread: the daemons that have heard of the configuration, and
for each message in the network whether its sender had. -/
structure Spread (ι : Type*) where
  cluster : Cluster ι
  heard : ι → Bool
  carrying : List Bool

namespace Spread

open Cluster

variable {ι : Type*} [DecidableEq ι] {http : HttpCrate} {s : Cluster ι} {x y : Spread ι}
  {a : ClusterAct ι} {i j : ι} {v : UInt64}

/-- Whether the daemon that a step makes send messages has heard of the configuration. -/
def sends (x : Spread ι) (a : ClusterAct ι) : Bool := (a.sender?.map x.heard).getD false

def next (http : HttpCrate) (x : Spread ι) (a : ClusterAct ι) : Option (Spread ι) :=
  (Cluster.next http x.cluster a).map fun t =>
    match a with
    | .mergeConfig k _ =>
      match x.cluster.net[k]?, x.carrying[k]? with
      | some e, some true => ⟨t, Function.update x.heard e.dst true, x.carrying⟩
      | _, _ => { x with cluster := t }
    | .lose k => ⟨t, x.heard, x.carrying.eraseIdx k⟩
    | a =>
      let sent := t.net.length - x.cluster.net.length
      ⟨t, x.heard, x.carrying ++ List.replicate sent (x.sends a)⟩

/-- The daemon `i` has its configuration, and some messages are on their way with it. -/
def start (s : Cluster ι) (i : ι) : Spread ι where
  cluster := s
  heard j := decide (j = i)
  carrying := s.net.map fun e => e.msg.config? == some (s.daemons i).store.memory

/-- The runs from a state of the cluster in which no change is made at `u64::MAX`. -/
def spreads (http : HttpCrate) (s : Cluster ι) (i : ι) : Transition (Spread ι) (ClusterAct ι) :=
  (Transition.ofNext (· = start s i) (next http)).restrict fun x a _ => Rises http x.cluster a

/-- The runs in which nobody changes the configuration. -/
def quiet (http : HttpCrate) (s : Cluster ι) (i : ι) : Transition (Spread ι) (ClusterAct ι) :=
  (Transition.ofNext (· = start s i) (next http)).restrict fun x a _ =>
    minted http x.cluster a = none

/-- Those who have heard of the configuration are at its version or a higher one, and so are the
configurations that their messages offer. -/
structure Informed (v : UInt64) (x : Spread ι) : Prop where
  tagged : x.carrying.length = x.cluster.net.length
  heard : ∀ j, x.heard j = true → v ≤ x.cluster.version j
  offered : ∀ (k : ℕ) (e : Envelope ι) (dc : DynamicConfig), x.cluster.net[k]? = some e →
    x.carrying[k]? = some true → e.msg.config? = some dc → v ≤ dc.version

theorem informed_start (s : Cluster ι) (i : ι) : Informed (s.version i) (start s i) := by
  refine ⟨by simp [start], fun j hj => ?_, fun k e dc he hk hdc => ?_⟩
  · obtain rfl : j = i := of_decide_eq_true hj
    exact UInt64.le_refl _
  · have hnet : s.net[k]? = some e := he
    simp only [start, List.getElem?_map, hnet, Option.map_some, Option.some.injEq, hdc,
      beq_iff_eq] at hk
    rw [hk]
    exact UInt64.le_refl _

theorem next_cluster (h : next http x a = some y) :
    Cluster.next http x.cluster a = some y.cluster := by
  obtain ⟨t, ht, rfl⟩ := Option.map_eq_some_iff.mp h
  rw [ht]
  cases a with
  | mergeConfig k saved =>
    dsimp only
    split <;> rfl
  | _ => rfl

/-- What a step spreads: a daemon hears of the configuration from a message, a message is lost, or
the messages of the sender are tagged with what it has heard. -/
theorem next_cases (h : next http x a = some y) :
    (∃ k saved, a = .mergeConfig k saved ∧ y.carrying = x.carrying ∧
      (y.heard = x.heard ∨ ∃ e, x.cluster.net[k]? = some e ∧ x.carrying[k]? = some true ∧
        y.heard = Function.update x.heard e.dst true)) ∨
    (∃ k, a = .lose k ∧ y.carrying = x.carrying.eraseIdx k ∧ y.heard = x.heard) ∨
    (∀ k, a ≠ .lose k) ∧ y.heard = x.heard ∧ y.carrying = x.carrying ++
      List.replicate (y.cluster.net.length - x.cluster.net.length) (x.sends a) := by
  obtain ⟨t, ht, rfl⟩ := Option.map_eq_some_iff.mp h
  cases a with
  | mergeConfig k saved =>
    refine .inl ⟨k, saved, rfl, ?_⟩
    dsimp only
    split
    · next e he hk => exact ⟨rfl, .inr ⟨e, he, hk, rfl⟩⟩
    · exact ⟨rfl, .inl rfl⟩
  | lose k => exact .inr (.inl ⟨k, rfl, rfl, rfl⟩)
  | _ => exact .inr (.inr ⟨by simp, rfl, rfl⟩)

theorem mergeConfig_net {k : ℕ} {saved : Bool} {t : Cluster ι}
    (h : Cluster.next http s (.mergeConfig k saved) = some t) :
    t.net = s.net ∧ ∃ e dc, s.net[k]? = some e ∧ e.msg.config? = some dc ∧
      dc.version ≤ t.version e.dst := by
  obtain ⟨e, he, hm⟩ := Option.bind_eq_some_iff.mp h
  obtain ⟨dc, hdc, rfl⟩ := Option.map_eq_some_iff.mp hm
  refine ⟨rfl, e, dc, he, hdc, ?_⟩
  rw [version_setDaemon, if_pos rfl]
  exact (le_version_merge dc saved _).2

theorem eraseIdx_tag {α : Type*} {l : List α} {tags : List Bool} {k m : ℕ} {b : α}
    (hl : (l.eraseIdx k)[m]? = some b) (ht : (tags.eraseIdx k)[m]? = some true) :
    ∃ n : ℕ, l[n]? = some b ∧ tags[n]? = some true := by
  rw [List.getElem?_eraseIdx] at hl ht
  split_ifs at hl ht
  · exact ⟨m, hl, ht⟩
  · exact ⟨m + 1, hl, ht⟩

theorem Informed.step (hx : Informed v x) (hr : Rises http x.cluster a)
    (h : next http x a = some y) : Informed v y := by
  have hnext := next_cluster h
  obtain ⟨hmono, hnet⟩ := versions_next hr hnext
  have hkept : ∀ j, x.heard j = true → v ≤ y.cluster.version j := fun j hj =>
    UInt64.le_trans (hx.heard j hj) (hmono j)
  rcases next_cases h with ⟨k, saved, rfl, hc, hheard⟩ | ⟨k, rfl, hc, hheard⟩ | ⟨hne, hheard, hc⟩
  · obtain ⟨hsame, e, dc, he, hdc, hle⟩ := mergeConfig_net hnext
    refine ⟨by rw [hc, hsame, hx.tagged], fun j hj => ?_, fun m f dc' hf hm hdc' => ?_⟩
    · rcases hheard with hheard | ⟨e', he', hk, hheard⟩
      · rw [hheard] at hj
        exact hkept j hj
      · obtain rfl : e = e' := Option.some.inj (he.symm.trans he')
        rw [hheard, Function.update_apply] at hj
        split_ifs at hj with hdst
        · rw [hdst]
          exact UInt64.le_trans (hx.offered k e dc he hk hdc) hle
        · exact hkept j hj
    · rw [hsame] at hf
      rw [hc] at hm
      exact hx.offered m f dc' hf hm hdc'
  · have hlost : y.cluster.net = x.cluster.net.eraseIdx k := by
      rw [← Option.some.inj hnext]
    refine ⟨?_, fun j hj => hkept j (hheard ▸ hj), fun m f dc hf hm hdc => ?_⟩
    · rw [hc, hlost, List.length_eraseIdx, List.length_eraseIdx, hx.tagged]
    · rw [hlost] at hf
      rw [hc] at hm
      obtain ⟨n, hf, hm⟩ := eraseIdx_tag hf hm
      exact hx.offered n f dc hf hm hdc
  · obtain ⟨more, hmore, hsent⟩ := hnet.resolve_left fun ⟨k, hk, _⟩ => hne k hk
    have hlen : y.cluster.net.length - x.cluster.net.length = more.length := by
      rw [hmore, List.length_append, Nat.add_sub_cancel_left]
    rw [hlen] at hc
    refine ⟨?_, fun j hj => hkept j (hheard ▸ hj), fun m f dc hf hm hdc => ?_⟩
    · rw [hc, hmore, List.length_append, List.length_append, List.length_replicate, hx.tagged]
    · rw [hmore] at hf
      rw [hc] at hm
      by_cases hold : m < x.cluster.net.length
      · rw [List.getElem?_append_left hold] at hf
        rw [List.getElem?_append_left (hx.tagged ▸ hold)] at hm
        exact hx.offered m f dc hf hm hdc
      · -- A new message offers nothing below the version of its sender, which has heard.
        rw [List.getElem?_append_right (Nat.le_of_not_lt hold)] at hf
        rw [List.getElem?_append_right (hx.tagged ▸ Nat.le_of_not_lt hold)] at hm
        obtain ⟨hsrc, hle⟩ := hsent f (List.mem_of_getElem? hf)
        have htag : x.heard f.src = true := by
          have hrep := List.eq_of_mem_replicate (List.mem_of_getElem? hm)
          rw [sends, hsrc] at hrep
          exact hrep.symm
        exact UInt64.le_trans (hx.heard f.src htag) (hle dc hdc)

theorem informed_of_reachable (h : (spreads http s i).Reachable x) : Informed (s.version i) x := by
  refine h.invariant (I := Informed (s.version i)) ?_ ?_
  · rintro x rfl
    exact informed_start s i
  · rintro x a y hx ⟨hnext, hr⟩
    exact hx.step hr hnext

/-! ## Quiet runs -/

theorem heard_mono (h : next http x a = some y) (hj : x.heard j = true) : y.heard j = true := by
  rcases next_cases h with ⟨k, saved, -, -, hheard | ⟨e, -, -, hheard⟩⟩ | ⟨k, -, -, hheard⟩ |
    ⟨-, hheard, -⟩
  · rw [hheard, hj]
  · rw [hheard, Function.update_apply]
    split_ifs
    · rfl
    · exact hj
  · rw [hheard, hj]
  · rw [hheard, hj]

theorem heard_of_reaches (h : (quiet http s i).Reaches x y) (hj : x.heard j = true) :
    y.heard j = true := by
  refine h.preserves (I := fun x => x.heard j = true) ?_ hj
  rintro x a y hj ⟨hnext, -⟩
  exact heard_mono hnext hj

theorem spreads_of_quiet (h : (quiet http s i).Reachable x) : (spreads http s i).Reachable x := by
  obtain ⟨x₀, h₀, hr⟩ := h
  refine ⟨x₀, h₀, ?_⟩
  induction hr with
  | refl => exact .refl _
  | tail _ hstep ih =>
    obtain ⟨a, hnext, hquiet⟩ := hstep
    exact ih.snoc (a := a) ⟨hnext, fun i _ hne => absurd hquiet hne⟩

theorem carried_of_quiet (h : (quiet http s i).Reachable x) {dc : DynamicConfig}
    (hc : Carried x.cluster dc) : Carried s dc := by
  refine h.invariant (I := fun x => ∀ dc, Carried x.cluster dc → Carried s dc) ?_ ?_ dc hc
  · rintro x rfl dc hc
    exact hc
  · rintro x a y ih ⟨hnext, hquiet⟩ dc hc
    rcases carried_next (next_cluster hnext) hc with hc | hm
    · exact ih dc hc
    · rw [hquiet] at hm
      cases hm

theorem tells (http : HttpCrate) (s : Cluster ι) (hx : Informed v x) (hi : x.heard i = true)
    (j : ι) : ∃ y, (quiet http s i).Reaches x y ∧ y.heard j = true := by
  let d := x.cluster.daemons i
  let nodes := snapshotNodes d.config d.localHealth d.knownNodes
  let e : Envelope ι := ⟨i, j, .sync d.store.memory nodes⟩
  let sent : Spread ι := ⟨x.cluster.send i j e.msg, x.heard, x.carrying ++ [true]⟩
  have hsend : next http x (.sendSync i j nodes) = some sent := by
    have hstep : Cluster.next http x.cluster (.sendSync i j nodes) =
        some (x.cluster.send i j e.msg) := if_pos (List.Perm.refl _)
    simp [next, hstep, Cluster.send, sends, ClusterAct.sender?, hi, sent]
  have hnet : sent.cluster.net[x.cluster.net.length]? = some e := by simp [sent, Cluster.send, e]
  have htag : sent.carrying[x.cluster.net.length]? = some true := by
    simp [sent, ← hx.tagged]
  obtain ⟨t, ht⟩ : ∃ t, Cluster.next http sent.cluster (.mergeConfig x.cluster.net.length true) =
      some t := by
    simp [Cluster.next, hnet, e, Message.config?]
  have hmerge : next http sent (.mergeConfig x.cluster.net.length true) =
      some ⟨t, Function.update sent.heard j true, sent.carrying⟩ := by
    simp [next, ht, hnet, htag, e]
  exact ⟨_, .head (a := .sendSync i j nodes) ⟨hsend, rfl⟩
    (.head (a := .mergeConfig x.cluster.net.length true) ⟨hmerge, rfl⟩ (.refl _)),
    Function.update_self ..⟩

/-- As long as nobody changes the configuration, everybody can still hear of it. -/
theorem all_can_hear [Finite ι] (h : (quiet http s i).Reachable x) :
    ∃ y, (quiet http s i).Reaches x y ∧ ∀ j, y.heard j = true := by
  have := Fintype.ofFinite ι
  suffices hsome : ∀ J : Finset ι, ∃ y, (quiet http s i).Reaches x y ∧ ∀ j ∈ J, y.heard j = true by
    obtain ⟨y, hy, hall⟩ := hsome Finset.univ
    exact ⟨y, hy, fun j => hall j (Finset.mem_univ j)⟩
  intro J
  induction J using Finset.induction_on with
  | empty => exact ⟨x, .refl x, by simp⟩
  | insert j J _ ih =>
    obtain ⟨y, hy, hall⟩ := ih
    have hreach := h.trans hy
    have hi : y.heard i = true := by
      obtain ⟨x₀, rfl, hr⟩ := hreach
      exact heard_of_reaches hr (decide_eq_true rfl)
    obtain ⟨z, hz, hj⟩ := tells http s (informed_of_reachable (spreads_of_quiet hreach)) hi j
    refine ⟨z, Relation.ReflTransGen.trans hy hz, fun k hk => ?_⟩
    rcases Finset.mem_insert.mp hk with rfl | hk
    · exact hj
    · exact heard_of_reaches hz (hall k hk)

/-- Where every change raises the version, a daemon that has heard of a configuration, from its
holder or through any chain of others, is never behind it. If all mints were fresh, it is the newest
around and nobody changes it, those that have heard of it hold it from then on, and everybody can
still hear of it. -/
theorem heard_converges [Finite ι] (hs : (freshMints http).Reachable s) (i : ι) :
    (∀ x, (spreads http s i).Reachable x → ∀ j, x.heard j = true →
      (s.daemons i).store.memory.version ≤ (x.cluster.daemons j).store.memory.version) ∧
    ((∀ dc, Carried s dc → dc.version ≤ (s.daemons i).store.memory.version) →
      ∀ x, (quiet http s i).Reachable x →
        (∀ j, x.heard j = true → ∀ y, (quiet http s i).Reaches x y →
          (y.cluster.daemons j).store.memory = (s.daemons i).store.memory) ∧
        ∃ y, (quiet http s i).Reaches x y ∧ ∀ j, y.heard j = true) := by
  refine ⟨fun x hx j hj => (informed_of_reachable hx).heard j hj, fun hnewest x hx => ⟨?_, ?_⟩⟩
  · intro j hj y hy
    have hreach := hx.trans hy
    have hle : s.version i ≤ y.cluster.version j :=
      (informed_of_reachable (spreads_of_quiet hreach)).heard j (heard_of_reaches hy hj)
    have hold : Carried s (y.cluster.daemons j).store.memory :=
      carried_of_quiet hreach (carried_memory y.cluster j)
    have hver := UInt64.le_antisymm (hnewest _ hold) hle
    exact agrees_of_fresh_mints hs _ _ hold (carried_memory s i) hver
  · exact all_can_hear hx

def opsAdded : Cluster Bool :=
  Transition.run (Cluster.next plainHttp) opsPair [opsAdd false "a" true]

theorem heard_converges_opsAdded :
    (opsAdded.daemons true).store.memory.version = 5 ∧
      ∃ y, (quiet plainHttp opsAdded false).Reachable y ∧
        (y.cluster.daemons true).store.memory = (opsAdded.daemons false).store.memory := by
  have hs : (freshMints plainHttp).Reachable opsAdded := by
    refine (Transition.Reachable.of_init (S := freshMints plainHttp) started_opsPair).snoc
      (a := opsAdd false "a" true) ⟨Transition.next_eq_some_run rfl, ?_⟩
    rintro dc hdc d (⟨i, rfl⟩ | ⟨e, he, _⟩) hv
    · obtain rfl := Option.some.inj hdc
      cases i <;> exact absurd hv (by decide)
    · cases he
  have hnet : opsAdded.net =
      [⟨false, true, .configUpdate (opsAdded.daemons false).store.memory⟩] := rfl
  have hnewest : ∀ dc, Carried opsAdded dc →
      dc.version ≤ (opsAdded.daemons false).store.memory.version := by
    rintro dc (⟨i, rfl⟩ | ⟨e, he, hdc⟩)
    · cases i <;> decide
    · rw [hnet] at he
      obtain rfl := List.mem_singleton.mp he
      obtain rfl := Option.some.inj hdc
      exact UInt64.le_refl _
  have hheard : (quiet plainHttp opsAdded false).Reachable
      (Transition.run (next plainHttp) (start opsAdded false) [.mergeConfig 0 true]) :=
    (Transition.Reachable.of_init (S := quiet plainHttp opsAdded false) rfl).snoc
      (a := .mergeConfig 0 true) ⟨Transition.next_eq_some_run rfl, rfl⟩
  obtain ⟨-, hquiet⟩ := heard_converges hs false
  exact ⟨by decide, _, hheard, (hquiet hnewest _ hheard).1 true (by decide) _ (.refl _)⟩

end Spread

end Stouter
