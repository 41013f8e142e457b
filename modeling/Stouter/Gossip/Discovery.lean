import Stouter.Doubling.Basic
import Stouter.Gossip.Routability

/-! # Discovery

`run_sync_loop` in every daemon: from time to time a daemon exchanges tables with
its bootstrap peers and with all the nodes that it knows, one after the other. The
exchanges of all the daemons overlap in any way, a daemon may give up on one, and
its peer may merge a table that nobody waits for any more. While none of them joins
or leaves, the distance over which the daemons know each other doubles in two rounds
of each daemon.
-/

namespace Stouter

/-- `peer_addrs`: bootstrap peers, and the addresses of the known nodes. -/
def peerAddrs (cfg : Config) (kn : NodeMap) : List String :=
  (HashMap.values kn).foldl (fun addrs node =>
    if !node.addr.isEmpty && !addrs.contains node.addr then addrs ++ [node.addr] else addrs)
    cfg.knownNodes

/-- What has become of an exchange: the `Sync` of the daemon that contacts its peer is under way,
the peer has merged it, or the answer is under way. -/
inductive ExchangePhase
  | asked (nodes : List NodeInfo)
  | merged
  | answered (nodes : List NodeInfo)

structure Exchange (ι : Type*) where
  src : ι
  dst : ι
  addr : String
  phase : ExchangePhase

/-- `run_sync_loop` between two ticks, or in a round: the peers it has not contacted yet, the
exchange it waits for, and whether every peer that it could reach has answered so far. -/
inductive LoopPhase
  | waiting
  | round (todo : List String) (current : Option ℕ) (clean : Bool)

/-- The daemons with their tables, their loops and the clean rounds each has made, and all the
exchanges so far. -/
structure Syncing (ι : Type*) where
  tables : ι → NodeMap
  health : ι → ServiceHealth
  loops : ι → LoopPhase
  rounds : ι → ℕ
  exchanges : List (Exchange ι)

inductive SyncAct (ι : Type*)
  | tick (i : ι) (peers : List String)
  | contact (i : ι) (nodes : List NodeInfo)
  | miss (i : ι)
  | serve (k : ℕ) (conn : String) (now : Instant)
  | answer (k : ℕ) (nodes : List NodeInfo)
  | finish (i : ι) (now : Instant)
  | giveUp (i : ι)
  | rest (i : ι)
  | publishHealth (i : ι) (health : ServiceHealth)

namespace Syncing

section Steps

variable {ι : Type*} [DecidableEq ι]

def setLoop (s : Syncing ι) (i : ι) (phase : LoopPhase) : Syncing ι :=
  { s with loops := Function.update s.loops i phase }

def setTable (s : Syncing ι) (i : ι) (kn : NodeMap) : Syncing ι :=
  { s with tables := Function.update s.tables i kn }

def setExchange (s : Syncing ι) (k : ℕ) (e : Exchange ι) : Syncing ι :=
  { s with exchanges := s.exchanges.set k e }

/-- A daemon merges the nodes of a `Sync` that it gets on this connection. -/
def merge (cfg : ι → Config) (s : Syncing ι) (i : ι) (conn : String) (contact : Option String)
    (nodes : List NodeInfo) (now : Instant) : Syncing ι :=
  s.setTable i
    (mergeNodes (cfg i).nodeId (fixUnroutableAddrs conn nodes) contact now (s.tables i)).1

/-- The daemons are configured by `cfg`; `listener` is who can be reached at an address, and
`remote` tells where the connections of a daemon seem to come from. -/
def next (cfg : ι → Config) (listener : String → Option ι) (remote : ι → String → Bool)
    (s : Syncing ι) : SyncAct ι → Option (Syncing ι)
  -- Hash maps are listed in any order, here and in the messages.
  | .tick i peers =>
    match s.loops i with
    | .waiting =>
      if peers.Perm (peerAddrs (cfg i) (s.tables i)) then
        some (s.setLoop i (.round peers none true))
      else none
    | .round _ _ _ => none
  | .contact i nodes =>
    match s.loops i with
    | .round (addr :: todo) none clean =>
      match listener addr with
      | some j =>
        if nodes.Perm (snapshotNodes (cfg i) (s.health i) (s.tables i)) then
          some { s.setLoop i (.round todo (some s.exchanges.length) clean) with
            exchanges := s.exchanges ++ [⟨i, j, addr, .asked nodes⟩] }
        else none
      | none => none
    | _ => none
  -- A peer that nobody can reach does not count.
  | .miss i =>
    match s.loops i with
    | .round (addr :: todo) none clean =>
      some (s.setLoop i (.round todo none (clean && (listener addr).isNone)))
    | _ => none
  | .serve k conn now =>
    match s.exchanges[k]? with
    | some ⟨i, j, addr, .asked nodes⟩ =>
      if remote i conn then
        some ((s.merge cfg j conn none nodes now).setExchange k ⟨i, j, addr, .merged⟩)
      else none
    | _ => none
  | .answer k nodes =>
    match s.exchanges[k]? with
    | some ⟨i, j, addr, .merged⟩ =>
      if nodes.Perm (snapshotNodes (cfg j) (s.health j) (s.tables j)) then
        some (s.setExchange k ⟨i, j, addr, .answered nodes⟩)
      else none
    | _ => none
  | .finish i now =>
    match s.loops i with
    | .round todo (some k) clean =>
      match s.exchanges[k]? with
      | some ⟨_, _, addr, .answered nodes⟩ =>
        some ((s.merge cfg i addr (some addr) nodes now).setLoop i (.round todo none clean))
      | _ => none
    | _ => none
  | .giveUp i =>
    match s.loops i with
    | .round todo (some _) _ => some (s.setLoop i (.round todo none false))
    | _ => none
  | .rest i =>
    match s.loops i with
    | .round [] none clean =>
      some { s.setLoop i .waiting with
        rounds := Function.update s.rounds i (s.rounds i + clean.toNat) }
    | _ => none
  | .publishHealth i health => some { s with health := Function.update s.health i health }

def start : Syncing ι where
  tables _ := ∅
  health _ := .default
  loops _ := .waiting
  rounds _ := 0
  exchanges := []

def system (cfg : ι → Config) (listener : String → Option ι) (remote : ι → String → Bool) :
    Transition (Syncing ι) (SyncAct ι) :=
  .ofNext (· = start) (next cfg listener remote)

end Steps

/-! ## Addresses -/

variable {ι : Type*} {cfg : ι → Config} {listener : String → Option ι} {remote : ι → String → Bool}

/-- The daemons have ids of their own, and each can be reached at the address it lists itself under,
with the host of its connections in the place of `0.0.0.0`, where nobody is reached. -/
structure Addressed (cfg : ι → Config) (listener : String → Option ι)
    (remote : ι → String → Bool) : Prop where
  ids : Function.Injective fun i => (cfg i).nodeId
  valid : ∀ i, isValidNodeId (cfg i).nodeId = true
  reached : ∀ i conn, listener conn = some i ∨ remote i conn = true →
    listener (fixUnroutableAddr conn (cfg i).selfAddr) = some i
  named : ∀ addr i, listener addr = some i → addr ≠ "" ∧ ¬ Unroutable addr

/-- An entry under the id of a daemon leads to it. -/
def Leads (cfg : ι → Config) (listener : String → Option ι) (id : String) (node : NodeInfo) :
    Prop :=
  ∀ j, id = (cfg j).nodeId → listener node.addr = some j

/-- The nodes of a message lead to the daemons, but for the sender as it lists itself. -/
def Genuine (cfg : ι → Config) (listener : String → Option ι) (sender : ι)
    (nodes : List NodeInfo) : Prop :=
  ∀ node ∈ nodes, Leads cfg listener node.id node ∨
    node.id = (cfg sender).nodeId ∧ node.addr = (cfg sender).selfAddr

/-- The tables and the messages lead to the daemons, and a loop waits for an exchange of its own. -/
structure Sound (cfg : ι → Config) (listener : String → Option ι) (s : Syncing ι) : Prop where
  keyed : ∀ i, Keyed (s.tables i)
  tables : ∀ i, HashMap.All (Leads cfg listener) (s.tables i)
  exchanges : ∀ e ∈ s.exchanges, listener e.addr = some e.dst ∧
    (∀ nodes, e.phase = .asked nodes → Genuine cfg listener e.src nodes) ∧
    ∀ nodes, e.phase = .answered nodes → Genuine cfg listener e.dst nodes
  current : ∀ i todo k clean, s.loops i = .round todo (some k) clean →
    ∃ e, s.exchanges[k]? = some e ∧ e.src = i

theorem mem_peerAddrs {cfg : Config} {kn : NodeMap} {addr : String} :
    addr ∈ peerAddrs cfg kn ↔
      addr ∈ cfg.knownNodes ∨ addr ≠ "" ∧ ∃ node ∈ HashMap.values kn, node.addr = addr := by
  have hfold : ∀ (nodes : List NodeInfo) (addrs : List String),
      addr ∈ nodes.foldl (fun addrs node =>
        if !node.addr.isEmpty && !addrs.contains node.addr then addrs ++ [node.addr] else addrs)
        addrs ↔ addr ∈ addrs ∨ addr ≠ "" ∧ ∃ node ∈ nodes, node.addr = addr := by
    intro nodes
    induction nodes with
    | nil => simp
    | cons node nodes ih =>
      intro addrs
      rw [List.foldl_cons, ih]
      simp only [List.mem_cons, exists_eq_or_imp]
      split_ifs with h
      · simp only [List.mem_append, List.mem_singleton, Bool.and_eq_true, Bool.not_eq_true',
          String.isEmpty_eq_false_iff] at h ⊢
        constructor
        · rintro ((h' | rfl) | ⟨hne, h'⟩)
          · exact .inl h'
          · exact .inr ⟨h.1, .inl rfl⟩
          · exact .inr ⟨hne, .inr h'⟩
        · rintro (h' | ⟨hne, rfl | h'⟩)
          · exact .inl (.inl h')
          · exact .inl (.inr rfl)
          · exact .inr ⟨hne, h'⟩
      · simp only [Bool.and_eq_true, Bool.not_eq_true', String.isEmpty_eq_false_iff, not_and,
          Bool.not_eq_false, List.contains_iff_mem] at h
        constructor
        · rintro (h' | ⟨hne, h'⟩)
          · exact .inl h'
          · exact .inr ⟨hne, .inr h'⟩
        · rintro (h' | ⟨hne, rfl | h'⟩)
          · exact .inl h'
          · exact .inl (h hne)
          · exact .inr ⟨hne, h'⟩
  exact hfold _ _

theorem genuine_snapshot {i : ι} {kn : NodeMap} {health : ServiceHealth} {nodes : List NodeInfo}
    (hkeyed : Keyed kn) (hleads : HashMap.All (Leads cfg listener) kn)
    (hnodes : nodes.Perm (snapshotNodes (cfg i) health kn)) : Genuine cfg listener i nodes := by
  intro node hn
  rcases mem_snapshotNodes hkeyed (hnodes.mem_iff.mp hn) with ⟨-, hid, haddr, -⟩ | ⟨-, hlook⟩
  · exact .inr ⟨hid, haddr⟩
  · exact .inl (hleads _ _ hlook)

theorem Addressed.leads_merge (ha : Addressed cfg listener remote) {sender : ι}
    {conn ownId : String} {nodes : List NodeInfo} {contact : Option String} {now : Instant}
    {kn : NodeMap}
    (hleads : HashMap.All (Leads cfg listener) kn) (hnodes : Genuine cfg listener sender nodes)
    (hconn : listener conn = some sender ∨ remote sender conn = true) :
    HashMap.All (Leads cfg listener)
      (mergeNodes ownId (fixUnroutableAddrs conn nodes) contact now kn).1 := by
  have hfixed : ∀ node ∈ fixUnroutableAddrs conn nodes, Leads cfg listener node.id node := by
    intro node hn j hj
    obtain ⟨node, hmem, rfl⟩ := List.mem_map.mp hn
    dsimp only at hj ⊢
    rcases hnodes node hmem with h | ⟨hid, haddr⟩
    · rw [fixUnroutableAddr_of_routable conn (ha.named _ _ (h j hj)).2]
      exact h j hj
    · obtain rfl : sender = j := ha.ids (hid.symm.trans hj)
      rw [haddr]
      exact ha.reached sender conn hconn
  have hreceived : ∀ node : NodeInfo, (received ownId node).addr = node.addr := by
    intro node
    unfold received
    split_ifs <;> rfl
  apply all_mergeNodes hleads
  · intro node hn _ j hj
    exact (congrArg listener (hreceived node)).trans (hfixed node hn j hj)
  · intro node hn _ existing _ j hj
    rw [mergeEntry_addr, hreceived]
    exact hfixed node hn j hj
  · exact fun id node h => h

/-! ## Steps -/

variable {s t u : Syncing ι} {i j : ι} {k : ℕ} {a : SyncAct ι}

theorem sound_start : (start : Syncing ι).Sound cfg listener := by
  constructor
  · intro i id node h
    simp [start] at h
  · intro i id node h
    simp [start] at h
  · simp [start]
  · simp [start]

theorem getElem?_setExchange {e : Exchange ι} (hk : s.exchanges[k]? = some e) (e' : Exchange ι)
    (m : ℕ) :
    (s.setExchange k e').exchanges[m]? = if k = m then some e' else s.exchanges[m]? := by
  rw [setExchange]
  dsimp only
  rw [List.getElem?_set, if_pos (List.getElem?_eq_some_iff.mp hk).1]

theorem Sound.setExchange (hs : s.Sound cfg listener) {e : Exchange ι} {phase : ExchangePhase}
    (hk : s.exchanges[k]? = some e)
    (hasked : ∀ nodes, phase = .asked nodes → Genuine cfg listener e.src nodes)
    (hanswered : ∀ nodes, phase = .answered nodes → Genuine cfg listener e.dst nodes) :
    (s.setExchange k { e with phase }).Sound cfg listener := by
  have he := List.mem_of_getElem? hk
  refine { hs with
    exchanges := fun f hf => ?_
    current := fun i todo m clean h => ?_ }
  · rcases List.mem_or_eq_of_mem_set hf with hf | rfl
    · exact hs.exchanges f hf
    · exact ⟨(hs.exchanges e he).1, hasked, hanswered⟩
  · obtain ⟨f, hf, hsrc⟩ := hs.current i todo m clean h
    rw [getElem?_setExchange hk]
    split_ifs with hkm
    · subst hkm
      rw [hk] at hf
      obtain rfl := Option.some.inj hf
      exact ⟨_, rfl, hsrc⟩
    · exact ⟨f, hf, hsrc⟩

section Preservation

variable [DecidableEq ι]

theorem loops_setLoop (s : Syncing ι) (i j : ι) (phase : LoopPhase) :
    (s.setLoop i phase).loops j = if j = i then phase else s.loops j := by
  rw [setLoop]
  exact Function.update_apply _ _ _ _

theorem Sound.setLoop (hs : s.Sound cfg listener) {phase : LoopPhase}
    (hphase : ∀ todo k clean, phase = .round todo (some k) clean →
      ∃ e, s.exchanges[k]? = some e ∧ e.src = i) : (s.setLoop i phase).Sound cfg listener := by
  refine { hs with current := fun j todo k clean h => ?_ }
  rw [loops_setLoop] at h
  split_ifs at h with hj
  · rw [hj]
    exact hphase todo k clean h
  · exact hs.current j todo k clean h

theorem Sound.setTable (hs : s.Sound cfg listener) {kn : NodeMap} (hkeyed : Keyed kn)
    (hleads : HashMap.All (Leads cfg listener) kn) : (s.setTable i kn).Sound cfg listener := by
  refine { hs with keyed := fun j => ?_, tables := fun j => ?_ }
  · rw [Syncing.setTable]
    dsimp only
    rw [Function.update_apply]
    split_ifs
    · exact hkeyed
    · exact hs.keyed j
  · rw [Syncing.setTable]
    dsimp only
    rw [Function.update_apply]
    split_ifs
    · exact hleads
    · exact hs.tables j

theorem Sound.merge (hs : s.Sound cfg listener) (ha : Addressed cfg listener remote) {sender : ι}
    {conn : String} {nodes : List NodeInfo} {contact : Option String} {now : Instant}
    (hnodes : Genuine cfg listener sender nodes)
    (hconn : listener conn = some sender ∨ remote sender conn = true) :
    (s.merge cfg i conn contact nodes now).Sound cfg listener :=
  hs.setTable ((hs.keyed i).mergeNodes _ _) (ha.leads_merge (hs.tables i) hnodes hconn)

theorem Sound.contact (hs : s.Sound cfg listener) {addr : String} {todo : List String}
    {clean : Bool} {nodes : List NodeInfo} (hj : listener addr = some j)
    (hnodes : nodes.Perm (snapshotNodes (cfg i) (s.health i) (s.tables i))) :
    Sound cfg listener { s.setLoop i (.round todo (some s.exchanges.length) clean) with
      exchanges := s.exchanges ++ [⟨i, j, addr, .asked nodes⟩] } := by
  refine { hs with exchanges := fun e he => ?_, current := fun i' todo' k clean' h => ?_ }
  · rcases List.mem_append.mp he with he | he
    · exact hs.exchanges e he
    · obtain rfl := List.mem_singleton.mp he
      refine ⟨hj, fun nodes' hn => ?_, nofun⟩
      cases hn
      exact genuine_snapshot (hs.keyed i) (hs.tables i) hnodes
  · change (s.setLoop i _).loops i' = _ at h
    rw [loops_setLoop] at h
    split_ifs at h with hi
    · cases h
      exact ⟨_, List.getElem?_concat_length, hi.symm⟩
    · obtain ⟨e, he, hsrc⟩ := hs.current i' todo' k clean' h
      refine ⟨e, ?_, hsrc⟩
      rwa [List.getElem?_append_left (List.getElem?_eq_some_iff.mp he).1]

theorem Sound.step (hs : s.Sound cfg listener) (ha : Addressed cfg listener remote)
    (h : (system cfg listener remote).step s a t) : t.Sound cfg listener := by
  simp only [system, Transition.ofNext] at h
  cases a with
  | tick i peers =>
    simp only [next] at h
    split at h
    · split_ifs at h
      obtain rfl := Option.some.inj h
      exact hs.setLoop nofun
    · cases h
  | contact i nodes =>
    simp only [next] at h
    split at h
    · split at h
      · next j hj =>
        split_ifs at h with hnodes
        obtain rfl := Option.some.inj h
        exact hs.contact hj hnodes
      · cases h
    · cases h
  | miss i =>
    simp only [next] at h
    split at h
    · obtain rfl := Option.some.inj h
      exact hs.setLoop nofun
    · cases h
  | serve k conn now =>
    simp only [next] at h
    split at h
    · next i j addr nodes hk =>
      split_ifs at h with hconn
      obtain rfl := Option.some.inj h
      obtain ⟨-, hasked, -⟩ := hs.exchanges _ (List.mem_of_getElem? hk)
      exact (hs.merge ha (hasked nodes rfl) (.inr hconn)).setExchange hk nofun nofun
    · cases h
  | answer k nodes =>
    simp only [next] at h
    split at h
    · next i j addr hk =>
      split_ifs at h with hnodes
      obtain rfl := Option.some.inj h
      refine hs.setExchange hk nofun fun nodes' hn => ?_
      cases hn
      exact genuine_snapshot (hs.keyed j) (hs.tables j) hnodes
    · cases h
  | finish i now =>
    simp only [next] at h
    split at h
    · next todo k clean hloop =>
      split at h
      · next src dst addr nodes hk =>
        obtain rfl := Option.some.inj h
        obtain ⟨haddr, -, hanswered⟩ := hs.exchanges _ (List.mem_of_getElem? hk)
        exact (hs.merge ha (hanswered nodes rfl) (.inl haddr)).setLoop nofun
      · cases h
    · cases h
  | giveUp i =>
    simp only [next] at h
    split at h
    · obtain rfl := Option.some.inj h
      exact hs.setLoop nofun
    · cases h
  | rest i =>
    simp only [next] at h
    split at h
    · obtain rfl := Option.some.inj h
      have hwaiting : (s.setLoop i .waiting).Sound cfg listener := hs.setLoop nofun
      exact { hwaiting with }
    · cases h
  | publishHealth i health =>
    obtain rfl := Option.some.inj h
    exact { hs with }

theorem sound_of_reachable (ha : Addressed cfg listener remote)
    (h : (system cfg listener remote).Reachable s) : s.Sound cfg listener := by
  refine h.invariant (I := Sound cfg listener) ?_ fun _ _ _ hs hstep => hs.step ha hstep
  rintro s rfl
  exact sound_start

end Preservation

theorem Sound.listed (hs : s.Sound cfg listener) (ha : Addressed cfg listener remote)
    (hj : (cfg j).nodeId ∈ s.tables i) :
    ∃ node, (s.tables i).lookup (cfg j).nodeId = some node ∧ listener node.addr = some j ∧
      node.addr ∈ peerAddrs (cfg i) (s.tables i) := by
  obtain ⟨node, hnode⟩ := Option.isSome_iff_exists.mp (AList.lookup_isSome.mpr hj)
  have hleads := hs.tables i _ _ hnode j rfl
  exact ⟨node, hnode, hleads, mem_peerAddrs.mpr (.inr ⟨(ha.named _ _ hleads).1, node,
    HashMap.mem_values.mpr ⟨_, hnode⟩, rfl⟩)⟩

/-! ## What a daemon has told since -/

/-- The daemon is the other one, or has it in its table. -/
def Knows (cfg : ι → Config) (s : Syncing ι) (i j : ι) : Prop :=
  i = j ∨ (cfg j).nodeId ∈ s.tables i

/-- The daemon tries to contact the other one in every round. -/
def Contacts (cfg : ι → Config) (listener : String → Option ι) (s : Syncing ι) (i j : ι) : Prop :=
  s.Knows cfg i j ∨ ∃ addr ∈ (cfg i).knownNodes, listener addr = some j

/-- Since `s`, each of the two has told the other whom it knew. -/
def Met (cfg : ι → Config) (s u : Syncing ι) (i j : ι) : Prop :=
  (∀ k, s.Knows cfg i k → u.Knows cfg j k) ∧ ∀ k, s.Knows cfg j k → u.Knows cfg i k

def Names (cfg : ι → Config) (s : Syncing ι) (i : ι) (nodes : List NodeInfo) : Prop :=
  ∀ k, s.Knows cfg i k → (cfg k).nodeId ∈ nodes.map NodeInfo.id

/-- What an exchange that has begun since `s` has brought and will bring. -/
def Brings (cfg : ι → Config) (s u : Syncing ι) (e : Exchange ι) : Prop :=
  match e.phase with
  | .asked nodes => s.Names cfg e.src nodes
  | .merged => ∀ k, s.Knows cfg e.src k → u.Knows cfg e.dst k
  | .answered nodes =>
    (∀ k, s.Knows cfg e.src k → u.Knows cfg e.dst k) ∧ s.Names cfg e.dst nodes

/-- In a clean round that has begun since `s`, the daemon has met all those it contacts, but for
those it has still to contact and the one it waits for. -/
def Meeting (cfg : ι → Config) (listener : String → Option ι) (s u : Syncing ι) (i : ι) :
    LoopPhase → Prop
  | .waiting => True
  | .round todo current clean =>
    (∀ k, current = some k → s.exchanges.length ≤ k) ∧
      (clean = true → ∀ j, s.Contacts cfg listener i j → s.Met cfg u i j ∨
        (∃ addr ∈ todo, listener addr = some j) ∨
        ∃ k e, current = some k ∧ u.exchanges[k]? = some e ∧ e.dst = j)

/-- The state `u` comes later than `s`: nobody has forgotten anybody, exchanges and rounds that have
begun since are under way, and whoever has made two more clean rounds has met all its contacts. -/
structure Follows (cfg : ι → Config) (listener : String → Option ι) (s u : Syncing ι) : Prop where
  known : ∀ i id, id ∈ s.tables i → id ∈ u.tables i
  rounds : ∀ i, s.rounds i ≤ u.rounds i
  length : s.exchanges.length ≤ u.exchanges.length
  brings : ∀ k e, s.exchanges.length ≤ k → u.exchanges[k]? = some e → s.Brings cfg u e
  meeting : ∀ i, s.rounds i < u.rounds i → s.Meeting cfg listener u i (u.loops i)
  met : ∀ i, s.rounds i + 2 ≤ u.rounds i → ∀ j, s.Contacts cfg listener i j → s.Met cfg u i j

/-- Tables grow, and exchanges stay those of the same daemons. -/
structure Later (u v : Syncing ι) : Prop where
  known : ∀ i id, id ∈ u.tables i → id ∈ v.tables i
  exchanges : ∀ (k : ℕ) (e : Exchange ι), u.exchanges[k]? = some e →
    ∃ e' : Exchange ι, v.exchanges[k]? = some e' ∧ e'.dst = e.dst

section Later

variable {v : Syncing ι} {phase : LoopPhase} {nodes : List NodeInfo} {e : Exchange ι}

theorem Knows.later (h : u.Knows cfg i j) (hl : Later u v) : v.Knows cfg i j :=
  h.imp id (hl.known i _)

theorem Met.later (h : s.Met cfg u i j) (hl : Later u v) : s.Met cfg v i j :=
  ⟨fun k hk => (h.1 k hk).later hl, fun k hk => (h.2 k hk).later hl⟩

theorem Brings.later (h : s.Brings cfg u e) (hl : Later u v) : s.Brings cfg v e := by
  obtain ⟨src, dst, addr, phase⟩ := e
  cases phase with
  | asked nodes => exact h
  | merged => exact fun k hk => (h k hk).later hl
  | answered nodes => exact ⟨fun k hk => (h.1 k hk).later hl, h.2⟩

theorem Meeting.later (h : s.Meeting cfg listener u i phase) (hl : Later u v) :
    s.Meeting cfg listener v i phase := by
  cases phase with
  | waiting => trivial
  | round todo current clean =>
    refine ⟨h.1, fun hclean j hj => ?_⟩
    rcases h.2 hclean j hj with hmet | htodo | ⟨k, e, hk, he, hdst⟩
    · exact .inl (hmet.later hl)
    · exact .inr (.inl htodo)
    · obtain ⟨e', he', hdst'⟩ := hl.exchanges k e he
      exact .inr (.inr ⟨k, e', hk, he', hdst'.trans hdst⟩)

theorem follows_self (s : Syncing ι) : Follows cfg listener s s := by
  refine ⟨fun _ _ => id, fun _ => le_rfl, le_rfl, fun k e hk he => ?_, fun i hi => ?_,
    fun i hi => ?_⟩
  · exact absurd (List.getElem?_eq_some_iff.mp he).1 hk.not_gt
  · exact absurd hi (lt_irrefl _)
  · omega

theorem Follows.later (hf : Follows cfg listener s u) (hl : Later u v)
    (hlength : u.exchanges.length ≤ v.exchanges.length) (hrounds : v.rounds = u.rounds)
    (hbrings : ∀ k e, s.exchanges.length ≤ k → v.exchanges[k]? = some e →
      u.exchanges[k]? = some e ∨ s.Brings cfg v e)
    (hmeeting : ∀ i, v.loops i = u.loops i ∨
      (s.rounds i < u.rounds i → s.Meeting cfg listener v i (v.loops i))) :
    Follows cfg listener s v := by
  refine ⟨fun i id h => hl.known i id (hf.known i id h), fun i => ?_, hf.length.trans hlength,
    fun k e hk he => ?_, fun i hi => ?_, fun i hi j hj => ?_⟩
  · rw [hrounds]
    exact hf.rounds i
  · rcases hbrings k e hk he with he | hb
    · exact (hf.brings k e hk he).later hl
    · exact hb
  · rw [hrounds] at hi
    rcases hmeeting i with hsame | hm
    · rw [hsame]
      exact (hf.meeting i hi).later hl
    · exact hm hi
  · rw [hrounds] at hi
    exact (hf.met i hi j hj).later hl

end Later

section Follows

variable {nodes : List NodeInfo} {e : Exchange ι} {m : ι} {n : ℕ}

theorem Follows.names (hf : Follows cfg listener s u) (ha : Addressed cfg listener remote)
    (hkeyed : Keyed (u.tables i)) {health : ServiceHealth}
    (hnodes : nodes.Perm (snapshotNodes (cfg i) health (u.tables i))) : s.Names cfg i nodes := by
  intro k hk
  rw [(hnodes.map NodeInfo.id).mem_iff, mem_snapshotNodes_ids hkeyed]
  rcases hk with rfl | hk
  · refine .inr ⟨fun hempty => ?_, rfl⟩
    have hvalid := ha.valid i
    rw [hempty] at hvalid
    exact absurd hvalid (by decide)
  · exact .inl (hf.known i _ hk)

theorem Follows.setExchange (hf : Follows cfg listener s u) {phase : ExchangePhase}
    (hk : u.exchanges[n]? = some e)
    (hb : s.exchanges.length ≤ n → s.Brings cfg u { e with phase }) :
    Follows cfg listener s (u.setExchange n { e with phase }) := by
  have hl : Later u (u.setExchange n { e with phase }) := by
    refine ⟨fun _ _ => id, fun m f hf => ?_⟩
    rw [getElem?_setExchange hk]
    split_ifs with hm
    · subst hm
      rw [hk] at hf
      obtain rfl := Option.some.inj hf
      exact ⟨_, rfl, rfl⟩
    · exact ⟨f, hf, rfl⟩
  refine hf.later hl (List.length_set ..).ge rfl (fun m f hm hf' => ?_) fun j => .inl rfl
  rw [getElem?_setExchange hk] at hf'
  split_ifs at hf' with hnm
  · subst hnm
    obtain rfl := Option.some.inj hf'
    exact .inr ((hb hm).later hl)
  · exact .inl hf'

variable [DecidableEq ι]

theorem Follows.setLoop (hf : Follows cfg listener s u) {phase : LoopPhase}
    (hm : s.rounds i < u.rounds i → s.Meeting cfg listener u i phase) :
    Follows cfg listener s (u.setLoop i phase) := by
  have hl : Later u (u.setLoop i phase) := ⟨fun _ _ => id, fun k e he => ⟨e, he, rfl⟩⟩
  refine hf.later hl le_rfl rfl (fun k e _ he => .inl he) fun j => ?_
  rw [loops_setLoop]
  split_ifs with hj
  · subst hj
    exact .inr fun hr => (hm hr).later hl
  · exact .inl rfl

theorem tables_merge (u : Syncing ι) (i j : ι) (conn : String) (contact : Option String)
    (nodes : List NodeInfo) (now : Instant) {id : String} :
    id ∈ (u.merge cfg i conn contact nodes now).tables j ↔ id ∈ u.tables j ∨
      j = i ∧ isValidNodeId id ∧ id ∈ nodes.map NodeInfo.id := by
  rw [merge, setTable]
  dsimp only
  rw [Function.update_apply]
  split_ifs with hj
  · subst hj
    rw [mem_mergeNodes, ← fixUnroutableAddrs_ids conn nodes, List.mem_map]
    simp
  · simp [hj]

theorem later_merge (u : Syncing ι) (i : ι) (conn : String) (contact : Option String)
    (nodes : List NodeInfo) (now : Instant) :
    Later u (u.merge cfg i conn contact nodes now) :=
  ⟨fun j _ h => (tables_merge u i j conn contact nodes now).mpr (.inl h),
    fun _ e he => ⟨e, he, rfl⟩⟩

theorem Names.knows (hn : s.Names cfg j nodes) (ha : Addressed cfg listener remote) (u : Syncing ι)
    (i : ι) (conn : String) (contact : Option String) (now : Instant) (hm : s.Knows cfg j m) :
    (u.merge cfg i conn contact nodes now).Knows cfg i m :=
  .inr ((tables_merge u i i conn contact nodes now).mpr (.inr ⟨rfl, ha.valid m, hn m hm⟩))

theorem Follows.tick (hf : Follows cfg listener s u) (ha : Addressed cfg listener remote)
    (hs : u.Sound cfg listener) {peers : List String}
    (hpeers : peers.Perm (peerAddrs (cfg i) (u.tables i))) :
    Follows cfg listener s (u.setLoop i (.round peers none true)) := by
  refine hf.setLoop fun _ => ⟨nofun, fun _ j hj => ?_⟩
  simp only [hpeers.mem_iff]
  rcases hj with (rfl | hj) | ⟨addr, haddr, hj⟩
  · exact .inl ⟨fun k hk => hk.imp id (hf.known _ _), fun k hk => hk.imp id (hf.known _ _)⟩
  · obtain ⟨node, -, hleads, hpeer⟩ := hs.listed ha (hf.known _ _ hj)
    exact .inr (.inl ⟨node.addr, hpeer, hleads⟩)
  · exact .inr (.inl ⟨addr, mem_peerAddrs.mpr (.inl haddr), hj⟩)

theorem Follows.contact (hf : Follows cfg listener s u) {addr : String} {todo : List String}
    {clean : Bool} (hloop : u.loops i = .round (addr :: todo) none clean)
    (hj : listener addr = some j) (hnames : s.Names cfg i nodes) :
    Follows cfg listener s { u.setLoop i (.round todo (some u.exchanges.length) clean) with
      exchanges := u.exchanges ++ [⟨i, j, addr, .asked nodes⟩] } := by
  have hl : Later u { u.setLoop i (.round todo (some u.exchanges.length) clean) with
      exchanges := u.exchanges ++ [⟨i, j, addr, .asked nodes⟩] } := by
    refine ⟨fun _ _ => id, fun k e he => ⟨e, ?_, rfl⟩⟩
    rwa [List.getElem?_append_left (List.getElem?_eq_some_iff.mp he).1]
  refine hf.later hl ?_ rfl (fun k e _ he => ?_) fun i' => ?_
  · rw [List.length_append]
    exact Nat.le_add_right _ _
  · by_cases hk : k < u.exchanges.length
    · rw [List.getElem?_append_left hk] at he
      exact .inl he
    · rw [List.getElem?_append_right (Nat.le_of_not_lt hk)] at he
      obtain rfl := List.mem_singleton.mp (List.mem_of_getElem? he)
      exact .inr hnames
  · change (u.setLoop i _).loops i' = _ ∨
      (_ → s.Meeting cfg listener _ i' ((u.setLoop i _).loops i'))
    rw [loops_setLoop]
    split_ifs with hi
    · subst hi
      refine .inr fun hr => ⟨fun k hk => ?_, fun hclean j' hj' => ?_⟩
      · obtain rfl := Option.some.inj hk
        exact hf.length
      · have hmeeting := hf.meeting i' hr
        rw [hloop] at hmeeting
        rcases hmeeting.2 hclean j' hj' with hmet | ⟨addr', haddr', hj''⟩ | ⟨k, e, hk, -⟩
        · exact .inl (hmet.later hl)
        · rcases List.mem_cons.mp haddr' with rfl | haddr'
          · obtain rfl := Option.some.inj (hj.symm.trans hj'')
            exact .inr (.inr ⟨_, _, rfl, List.getElem?_concat_length, rfl⟩)
          · exact .inr (.inl ⟨addr', haddr', hj''⟩)
        · cases hk
    · exact .inl rfl

theorem Follows.miss (hf : Follows cfg listener s u) {addr : String} {todo : List String}
    {clean : Bool} (hloop : u.loops i = .round (addr :: todo) none clean) :
    Follows cfg listener s
      (u.setLoop i (.round todo none (clean && (listener addr).isNone))) := by
  refine hf.setLoop fun hr => ⟨nofun, fun hclean j hj => ?_⟩
  have hmeeting := hf.meeting i hr
  rw [hloop] at hmeeting
  rw [Bool.and_eq_true, Option.isNone_iff_eq_none] at hclean
  rcases hmeeting.2 hclean.1 j hj with hmet | ⟨addr', haddr', hj'⟩ | ⟨k, e, hk, -⟩
  · exact .inl hmet
  · rcases List.mem_cons.mp haddr' with rfl | haddr'
    · rw [hclean.2] at hj'
      cases hj'
    · exact .inr (.inl ⟨addr', haddr', hj'⟩)
  · cases hk

theorem Follows.finish (hf : Follows cfg listener s u) (ha : Addressed cfg listener remote)
    (hs : u.Sound cfg listener) {todo : List String} {k : ℕ} {clean : Bool} {src dst : ι}
    {addr : String} (hloop : u.loops i = .round todo (some k) clean)
    (hk : u.exchanges[k]? = some ⟨src, dst, addr, .answered nodes⟩) (now : Instant) :
    Follows cfg listener s
      ((u.merge cfg i addr (some addr) nodes now).setLoop i (.round todo none clean)) := by
  have hl : Later u (u.merge cfg i addr (some addr) nodes now) :=
    later_merge u i addr (some addr) nodes now
  have hmerge : Follows cfg listener s (u.merge cfg i addr (some addr) nodes now) :=
    hf.later hl le_rfl rfl (fun k e _ he => .inl he) fun j => .inl rfl
  refine hmerge.setLoop fun hr => ⟨nofun, fun hclean j hj => ?_⟩
  have hmeeting := hf.meeting i hr
  rw [hloop] at hmeeting
  obtain ⟨e, he, hsrc⟩ := hs.current i todo k clean hloop
  obtain rfl := Option.some.inj (hk.symm.trans he)
  obtain rfl : src = i := hsrc
  rcases hmeeting.2 hclean j hj with hmet | htodo | ⟨k', e, hk', he, hdst⟩
  · exact .inl (hmet.later hl)
  · exact .inr (.inl htodo)
  · obtain rfl := Option.some.inj hk'
    obtain rfl := Option.some.inj (hk.symm.trans he)
    obtain rfl : dst = j := hdst
    obtain ⟨htold, hnames⟩ := hf.brings k _ (hmeeting.1 k rfl) hk
    exact .inl ⟨fun m hm => (htold m hm).later hl,
      fun m hm => hnames.knows ha u src addr (some addr) now hm⟩

theorem Follows.rest (hf : Follows cfg listener s u) {clean : Bool}
    (hloop : u.loops i = .round [] none clean) :
    Follows cfg listener s { u.setLoop i .waiting with
      rounds := Function.update u.rounds i (u.rounds i + clean.toNat) } := by
  have hl : Later u { u.setLoop i .waiting with
      rounds := Function.update u.rounds i (u.rounds i + clean.toNat) } :=
    ⟨fun _ _ => id, fun k e he => ⟨e, he, rfl⟩⟩
  refine ⟨hf.known, fun j => ?_, hf.length, fun k e hk he => (hf.brings k e hk he).later hl,
    fun j hr => ?_, fun j hr j' hj' => ?_⟩
  · change s.rounds j ≤ Function.update u.rounds i (u.rounds i + clean.toNat) j
    rw [Function.update_apply]
    split_ifs with hj
    · subst hj
      exact (hf.rounds j).trans (Nat.le_add_right _ _)
    · exact hf.rounds j
  · change s.rounds j < Function.update u.rounds i (u.rounds i + clean.toNat) j at hr
    change s.Meeting cfg listener _ j ((u.setLoop i .waiting).loops j)
    rw [loops_setLoop]
    rw [Function.update_apply] at hr
    split_ifs at hr ⊢ with hj
    · trivial
    · exact (hf.meeting j hr).later hl
  · change s.rounds j + 2 ≤ Function.update u.rounds i (u.rounds i + clean.toNat) j at hr
    rw [Function.update_apply] at hr
    split_ifs at hr with hj
    · subst hj
      cases clean with
      | false => exact (hf.met j hr j' hj').later hl
      | true =>
        -- The round that ends is not the first one since `s`.
        have hmeeting := hf.meeting j (by
          rw [Bool.toNat_true] at hr
          omega)
        rw [hloop] at hmeeting
        rcases hmeeting.2 rfl j' hj' with hmet | ⟨addr, haddr, -⟩ | ⟨k, e, hk, -⟩
        · exact hmet.later hl
        · cases haddr
        · cases hk
    · exact (hf.met j hr j' hj').later hl

theorem Follows.step {a : SyncAct ι} {v : Syncing ι} (hf : Follows cfg listener s u)
    (ha : Addressed cfg listener remote) (hs : u.Sound cfg listener)
    (h : (system cfg listener remote).step u a v) : Follows cfg listener s v := by
  simp only [system, Transition.ofNext] at h
  cases a with
  | tick i peers =>
    simp only [next] at h
    split at h
    · split_ifs at h with hpeers
      obtain rfl := Option.some.inj h
      exact hf.tick ha hs hpeers
    · cases h
  | contact i nodes =>
    simp only [next] at h
    split at h
    · next hloop =>
      split at h
      · next j hj =>
        split_ifs at h with hnodes
        obtain rfl := Option.some.inj h
        exact hf.contact hloop hj (hf.names ha (hs.keyed i) hnodes)
      · cases h
    · cases h
  | miss i =>
    simp only [next] at h
    split at h
    · next hloop =>
      obtain rfl := Option.some.inj h
      exact hf.miss hloop
    · cases h
  | serve k conn now =>
    simp only [next] at h
    split at h
    · next i j addr nodes hk =>
      split_ifs at h
      obtain rfl := Option.some.inj h
      have hmerge : Follows cfg listener s (u.merge cfg j conn none nodes now) :=
        hf.later (later_merge u j conn none nodes now) le_rfl rfl (fun k e _ he => .inl he)
          fun i => .inl rfl
      refine hmerge.setExchange hk fun hlen m hm => ?_
      have hnames : s.Names cfg i nodes := hf.brings k _ hlen hk
      exact hnames.knows ha u j conn none now hm
    · cases h
  | answer k nodes =>
    simp only [next] at h
    split at h
    · next i j addr hk =>
      split_ifs at h with hnodes
      obtain rfl := Option.some.inj h
      refine hf.setExchange hk fun hlen => ⟨?_, hf.names ha (hs.keyed j) hnodes⟩
      exact hf.brings k _ hlen hk
    · cases h
  | finish i now =>
    simp only [next] at h
    split at h
    · next hloop =>
      split at h
      · next hk =>
        obtain rfl := Option.some.inj h
        exact hf.finish ha hs hloop hk now
      · cases h
    · cases h
  | giveUp i =>
    simp only [next] at h
    split at h
    · obtain rfl := Option.some.inj h
      exact hf.setLoop fun _ => ⟨nofun, nofun⟩
    · cases h
  | rest i =>
    simp only [next] at h
    split at h
    · next hloop =>
      obtain rfl := Option.some.inj h
      exact hf.rest hloop
    · cases h
  | publishHealth i health =>
    obtain rfl := Option.some.inj h
    exact hf.later ⟨fun _ _ => id, fun k e he => ⟨e, he, rfl⟩⟩ le_rfl rfl
      (fun k e _ he => .inl he) fun j => .inl rfl

theorem follows_of_reaches (ha : Addressed cfg listener remote) (hs : s.Sound cfg listener)
    (h : (system cfg listener remote).Reaches s u) : Follows cfg listener s u := by
  refine (h.preserves (I := fun u => u.Sound cfg listener ∧ Follows cfg listener s u) ?_
    ⟨hs, follows_self s⟩).2
  rintro u a v ⟨hu, hf⟩ hstep
  exact ⟨hu.step ha hstep, hf.step ha hu hstep⟩

end Follows

/-! ## Rounds of all the daemons -/

variable [DecidableEq ι] {n : ℕ}

/-- There were `n` periods before this state in each of which every daemon made two more clean
rounds. -/
inductive Periods (cfg : ι → Config) (listener : String → Option ι) (remote : ι → String → Bool) :
    ℕ → Syncing ι → Prop
  | start {s : Syncing ι} (h : (system cfg listener remote).Reachable s) :
      Periods cfg listener remote 0 s
  | period {n : ℕ} {s t : Syncing ι} (h : Periods cfg listener remote n s)
      (hr : (system cfg listener remote).Reaches s t) (hrounds : ∀ i, s.rounds i + 2 ≤ t.rounds i) :
      Periods cfg listener remote (n + 1) t

theorem Periods.reachable (h : Periods cfg listener remote n s) :
    (system cfg listener remote).Reachable s := by
  induction h with
  | start h => exact h
  | period _ hr _ ih => exact ih.trans hr

/-- The daemons of which one has the other among its bootstrap peers. -/
def neighbours (cfg : ι → Config) (listener : String → Option ι) : SimpleGraph ι :=
  SimpleGraph.fromRel fun i j => ∃ addr ∈ (cfg i).knownNodes, listener addr = some j

/-- In the first period neighbours meet, and in each other one everybody meets all it knows. -/
theorem Periods.rounds (ha : Addressed cfg listener remote)
    (h : Periods cfg listener remote (n + 1) t) :
    ∃ K, (∀ i, K i i) ∧ (∀ i j, (neighbours cfg listener).Adj i j → K i j) ∧
      Doubling.Rounds K n (t.Knows cfg) := by
  induction n generalizing t with
  | zero =>
    cases h with | @period _ s _ h hr hrounds
    have hf := follows_of_reaches ha (sound_of_reachable ha h.reachable) hr
    have hmeets : Doubling.Meets (s.Contacts cfg listener) (s.Knows cfg) (t.Knows cfg) :=
      fun i j hj => hf.met i (hrounds i) j hj
    refine ⟨t.Knows cfg, fun i => .inl rfl, fun i j hij => ?_, .start⟩
    rcases ((SimpleGraph.fromRel_adj _ i j).mp hij).2 with hij | hji
    · exact (hmeets.symm (fun i => .inl rfl) (.inr hij)).1
    · exact (hmeets.symm (fun i => .inl rfl) (.inr hji)).2
  | succ n ih =>
    cases h with | @period _ s _ h hr hrounds
    have hf := follows_of_reaches ha (sound_of_reachable ha h.reachable) hr
    obtain ⟨K, hrefl, hadj, hK⟩ := ih h
    exact ⟨K, hrefl, hadj, hK.round fun i j hj => hf.met i (hrounds i) j (.inl hj)⟩

/-- Whatever their exchanges do meanwhile, after `n + 1` periods in each of which every daemon has
made two rounds without giving up, those that bootstrap peers link over a distance of up to `2 ^ n`
know each other: each has an entry for the other that leads to it, contacts it in every round, and
does so for good. -/
theorem peers_discover (ha : Addressed cfg listener remote)
    (h : Periods cfg listener remote (n + 1) s) (ht : (system cfg listener remote).Reaches s t)
    (hij : i ≠ j) (hlinked : (neighbours cfg listener).Reachable i j)
    (hdist : (neighbours cfg listener).dist i j ≤ 2 ^ n) :
    ∃ node, (t.tables i).lookup (cfg j).nodeId = some node ∧ listener node.addr = some j ∧
      node.addr ∈ peerAddrs (cfg i) (t.tables i) := by
  obtain ⟨K, hrefl, hadj, hK⟩ := h.rounds ha
  obtain ⟨w, hw⟩ := hlinked.exists_walk_length_eq_dist
  have hknows : s.Knows cfg i j := hK.knows hrefl hadj w (hw.trans_le hdist)
  have hf := follows_of_reaches ha (sound_of_reachable ha h.reachable) ht
  have hmem : (cfg j).nodeId ∈ t.tables i := hf.known i _ (hknows.resolve_left hij)
  exact (sound_of_reachable ha (h.reachable.trans ht)).listed ha hmem

/-- Two daemons: the first has the other among its bootstrap peers, and the other listens on all
interfaces. -/
def pairConfig : Bool → Config
  | false => { Config.default with nodeId := "a", bind := "a:1", knownNodes := ["b:1"] }
  | true => { Config.default with nodeId := "b", bind := "0.0.0.0:1" }

def pairListener (addr : String) : Option Bool :=
  if addr = "a:1" then some false else if addr = "b:1" then some true else none

def pairRemote : Bool → String → Bool
  | false, conn => conn == "a:9"
  | true, conn => conn == "b:9"

/-- Both make two rounds: the second daemon does not know anybody yet, and the first one contacts it
and, once it has learned of itself, itself. -/
def pairRounds : List (SyncAct Bool) :=
  let entry (id addr : String) : NodeInfo := ⟨id, addr, none, some 0, .default⟩
  let exchange (k : ℕ) (asked answered : List NodeInfo) : List (SyncAct Bool) :=
    [.contact false asked, .serve k "a:9" 0, .answer k answered, .finish false 0]
  [.tick true [], .rest true, .tick true [], .rest true, .tick false ["b:1"]] ++
    exchange 0 [⟨"a", "a:1", none, none, .default⟩]
      [entry "a" "a:1", ⟨"b", "0.0.0.0:1", none, none, .default⟩] ++
    [.rest false, .tick false ["b:1", "a:1"]] ++
    exchange 1 [entry "b" "b:1", entry "a" "a:1"] [entry "b" "0.0.0.0:1", entry "a" "a:1"] ++
    exchange 2 [entry "b" "b:1", entry "a" "a:1"] [entry "b" "b:1", entry "a" "a:1"] ++
    [.rest false]

theorem addressed_pair : Addressed pairConfig pairListener pairRemote := by
  have hlistener : ∀ addr i, pairListener addr = some i →
      i = false ∧ addr = "a:1" ∨ i = true ∧ addr = "b:1" := by
    intro addr i h
    unfold pairListener at h
    split_ifs at h with ha hb
    · exact .inl ⟨(Option.some.inj h).symm, ha⟩
    · exact .inr ⟨(Option.some.inj h).symm, hb⟩
  refine ⟨?_, ?_, ?_, ?_⟩
  · intro i j h
    cases i <;> cases j <;> first | rfl | exact absurd h (by decide)
  · intro i
    cases i <;> decide
  · rintro i conn (h | h)
    · obtain ⟨rfl, rfl⟩ | ⟨rfl, rfl⟩ := hlistener conn i h <;> decide
    · cases i <;> obtain rfl := eq_of_beq h <;> decide
  · intro addr i h
    obtain ⟨rfl, rfl⟩ | ⟨rfl, rfl⟩ := hlistener addr i h <;> decide

def pairDiscovered : Syncing Bool :=
  Transition.run (next pairConfig pairListener pairRemote) start pairRounds

theorem peers_discover_pair :
    ∃ node, (pairDiscovered.tables true).lookup "a" = some node ∧
      pairListener node.addr = some false := by
  have hr : (system pairConfig pairListener pairRemote).Reaches start pairDiscovered :=
    Transition.reaches_run (by decide +kernel)
  have hperiods : Periods pairConfig pairListener pairRemote 1 pairDiscovered :=
    .period (.start (.of_init rfl)) hr (by decide +kernel)
  have hadj : (neighbours pairConfig pairListener).Adj true false := by
    rw [neighbours, SimpleGraph.fromRel_adj]
    exact ⟨by decide, .inr ⟨"b:1", by decide, by decide⟩⟩
  have hdist : (neighbours pairConfig pairListener).dist true false ≤ 2 ^ 0 :=
    (SimpleGraph.dist_eq_one_iff_adj.mpr hadj).le
  obtain ⟨node, hnode, hleads, -⟩ := peers_discover addressed_pair hperiods (.refl _) (by decide)
    hadj.reachable hdist
  exact ⟨node, hnode, hleads⟩

end Syncing

end Stouter
