import Stouter.Gossip.Table

/-! # Liveness markers over time

A subscriber judges a node stale when its liveness marker is older than 30 s.
Markers are set when an entry is created, when a reverse registration is
accepted, and by an outbound sync for the entries at the address it reached.
With a sync every 10 s this keeps every node fresh that has an address. A node
behind NAT has none: away from its relay nothing refreshes its marker, and at
the relay only a new registration does.
-/

namespace Stouter

def knowsAddr (kn : NodeMap) (addr : String) : Bool := (HashMap.values kn).any (·.addr == addr)

theorem knowsAddr_of_lookup {kn : NodeMap} {id : String} {node : NodeInfo}
    (h : kn.lookup id = some node) : knowsAddr kn node.addr = true :=
  List.any_eq_true.mpr ⟨node, HashMap.mem_values.mpr ⟨id, h⟩, by simp⟩

namespace TableAct

def time? : TableAct → Option Instant
  | .inboundSync _ _ now => some now
  | .outboundSync _ _ now => some now
  | .nodeJoin _ _ now => some now
  | .reverseRegistration _ _ _ now => some now
  | _ => none

/-- A sync with the peer at the address has completed. -/
def syncsWith (addr : String) : TableAct → Bool
  | .outboundSync contact _ _ => contact == addr
  | _ => false

end TableAct

/-! ## What refreshes a marker -/

/-- The marker of an entry is the one it had, or the present time. -/
def SeenSince (kn : NodeMap) (now : Instant) (id : String) (node : NodeInfo) : Prop :=
  kn.lookup id = none ∧ node.lastSeen = some now ∨
    ∃ old, kn.lookup id = some old ∧
      (node.lastSeen = old.lastSeen ∨ node.lastSeen = some now)

theorem seenSince_now (kn : NodeMap) {now : Instant} {id : String} {node : NodeInfo}
    (h : node.lastSeen = some now) : SeenSince kn now id node := by
  cases hl : kn.lookup id with
  | none => exact .inl ⟨hl, h⟩
  | some old => exact .inr ⟨old, hl, .inr h⟩

theorem seenSince_congr {kn : NodeMap} {now : Instant} {id : String} {node node' : NodeInfo}
    (h : SeenSince kn now id node) (he : node'.lastSeen = node.lastSeen) :
    SeenSince kn now id node' := by
  unfold SeenSince
  rw [he]
  exact h

theorem seenSince_mergeNodes (ownId : String) (nodes : List NodeInfo) (contact : Option String)
    (now : Instant) (kn : NodeMap) :
    HashMap.All (SeenSince kn now) (mergeNodes ownId nodes contact now kn).1 := by
  apply all_mergeNodes (Q := SeenSince kn now)
  · exact fun id node hn => .inr ⟨node, hn, .inl rfl⟩
  · exact fun node _ _ => seenSince_now kn rfl
  · exact fun node _ _ existing h => seenSince_congr h (mergeEntry_lastSeen existing _)
  · exact fun id node _ => seenSince_now kn rfl

theorem seenSince_handle (d : Daemon) {a : TableAct} {now : Instant} (ha : ∀ t ∈ a.time?, t = now) :
    HashMap.All (SeenSince d.knownNodes now) (d.handle a).knownNodes := by
  have hold : HashMap.All (SeenSince d.knownNodes now) d.knownNodes :=
    fun id node hn => .inr ⟨node, hn, .inl rfl⟩
  cases a with
  | inboundSync peerAddr nodes t =>
    obtain rfl := ha t rfl
    exact seenSince_mergeNodes _ _ none t d.knownNodes
  | outboundSync addr nodes t =>
    obtain rfl := ha t rfl
    exact seenSince_mergeNodes _ _ (some addr) t d.knownNodes
  | nodeJoin id addr t =>
    obtain rfl := ha t rfl
    exact all_applyNodeJoin hold (fun _ _ => seenSince_now _ rfl) fun _ _ h => seenSince_congr h rfl
  | nodeLeave id => exact hold.erase
  | reverseRegistration nodeId timestampMs nowMs t =>
    obtain rfl := ha t rfl
    simp only [Daemon.handle, handleReverseRegistration]
    split
    · rename_i knownNodes hok
      split_ifs at hok
      obtain rfl := Except.ok.inj hok
      exact all_registerReverse hold (fun _ => seenSince_now _ rfl) fun _ _ => seenSince_now _ rfl
    · exact hold
  | publishHealth health => exact hold

/-- A completed sync refreshes the entries at the address it reached. -/
theorem seen_of_syncsWith {d : Daemon} {a : TableAct} {now : Instant} {addr id : String}
    {node : NodeInfo} (hs : a.syncsWith addr = true) (ha : ∀ t ∈ a.time?, t = now)
    (hn : (d.handle a).knownNodes.lookup id = some node) (haddr : node.addr = addr)
    (hne : addr ≠ "") : node.lastSeen = some now := by
  cases a with
  | outboundSync contact nodes t =>
    obtain rfl := ha t rfl
    obtain rfl : contact = addr := by simpa [TableAct.syncsWith] using hs
    simp only [Daemon.handle, mergeNodes, markSeen] at hn
    rw [HashMap.lookup_mapValues] at hn
    obtain ⟨old, _, rfl⟩ := Option.map_eq_some_iff.mp hn
    split_ifs at haddr ⊢ with hc
    · rfl
    · rw [haddr] at hc
      simp [hne] at hc
  | _ => simp [TableAct.syncsWith] at hs

/-! ## What leaves a marker alone -/

/-- The marker of an entry of the table. -/
def MarkedAt (x : String) (seen : Option Instant) (kn : NodeMap) : Prop :=
  ∃ node, kn.lookup x = some node ∧ node.lastSeen = seen

section MarkedAt

variable {x : String} {seen : Option Instant} {kn : NodeMap}

theorem markedAt_foldl (ownId : String) (nodes : List NodeInfo) (now : Instant)
    {acc : NodeMap × Bool} (h : MarkedAt x seen acc.1) :
    MarkedAt x seen (nodes.foldl (mergeNode ownId now) acc).1 := by
  induction nodes generalizing acc with
  | nil => exact h
  | cons node nodes ih =>
    apply ih
    obtain ⟨existing, hl, hs⟩ := h
    unfold MarkedAt
    rw [lookup_mergeNode]
    split_ifs
    · exact ⟨_, rfl, by rw [hl, Option.map_some, Option.getD_some, mergeEntry_lastSeen, hs]⟩
    · exact ⟨existing, hl, hs⟩

/-- A sync refreshes no entry without an address. -/
theorem markedAt_mergeNodes (ownId : String) (nodes : List NodeInfo) (contact : Option String)
    (now : Instant) (h : MarkedAt x seen kn) {node : NodeInfo}
    (hn : (mergeNodes ownId nodes contact now kn).1.lookup x = some node) (ha : node.addr = "") :
    node.lastSeen = seen := by
  have hfold : MarkedAt x seen (nodes.foldl (mergeNode ownId now) (kn, false)).1 :=
    markedAt_foldl ownId nodes now h
  obtain ⟨merged, hl, hs⟩ := hfold
  unfold mergeNodes at hn
  cases contact with
  | none =>
    obtain rfl := Option.some.inj (hl.symm.trans hn)
    exact hs
  | some addr =>
    simp only [markSeen] at hn
    rw [HashMap.lookup_mapValues, hl] at hn
    obtain rfl := Option.some.inj hn
    dsimp only at ha ⊢
    split_ifs at ha ⊢ with hc
    · have hempty : merged.addr = "" := ha
      simp [hempty] at hc
    · exact hs

/-- Only a registration moves the marker of an entry that stays without address. -/
theorem markedAt_handle {d : Daemon} {a : TableAct} (h : MarkedAt x seen d.knownNodes)
    (ha : ∀ timestampMs nowMs now, a ≠ .reverseRegistration x timestampMs nowMs now)
    {node : NodeInfo} (hn : (d.handle a).knownNodes.lookup x = some node) (hne : node.addr = "") :
    node.lastSeen = seen := by
  obtain ⟨old, hl, hs⟩ := h
  cases a with
  | inboundSync peerAddr nodes now => exact markedAt_mergeNodes _ _ _ now ⟨old, hl, hs⟩ hn hne
  | outboundSync addr nodes now => exact markedAt_mergeNodes _ _ _ now ⟨old, hl, hs⟩ hn hne
  | nodeJoin id addr now =>
    rw [Daemon.handle, lookup_applyNodeJoin] at hn
    split_ifs at hn with hc
    · rw [← hc.2, hl] at hn
      obtain rfl := Option.some.inj hn
      exact hs
    · obtain rfl := Option.some.inj (hl.symm.trans hn)
      exact hs
  | nodeLeave id =>
    rw [Daemon.handle, applyNodeLeave, HashMap.lookup_erase_eq_ite] at hn
    split_ifs at hn
    obtain rfl := Option.some.inj (hl.symm.trans hn)
    exact hs
  | reverseRegistration nodeId timestampMs nowMs now =>
    simp only [Daemon.handle, handleReverseRegistration] at hn
    split at hn
    · rename_i knownNodes hok
      split_ifs at hok
      obtain rfl := Except.ok.inj hok
      dsimp only at hn
      rw [lookup_registerReverse] at hn
      split_ifs at hn with hid
      · exact absurd (by rw [hid]) (ha timestampMs nowMs now)
      · obtain rfl := Option.some.inj (hl.symm.trans hn)
        exact hs
    · obtain rfl := Option.some.inj (hl.symm.trans hn)
      exact hs
  | publishHealth health =>
    obtain rfl := Option.some.inj (hl.symm.trans hn)
    exact hs

end MarkedAt

/-! ## Runs in time -/

/-- A daemon at a time in seconds, with two clocks: when a sync with an address last completed or
the address was last unknown, and when the entry of a node last took another address. -/
structure Timed where
  daemon : Daemon
  now : ℕ
  synced : String → ℕ
  moved : String → ℕ

inductive TimedAct
  | handle (a : TableAct)
  | wait (seconds : ℕ)

namespace Timed

/-- Time passes only as far as every known address has been synced with in the last 10 s. -/
def next (s : Timed) : TimedAct → Option Timed
  | .handle a =>
    if a.time?.all (· == Duration.fromSecs s.now) then
      let d := s.daemon.handle a
      some
        { daemon := d
          now := s.now
          synced := fun addr =>
            if a.syncsWith addr || !knowsAddr d.knownNodes addr then s.now else s.synced addr
          moved := fun id =>
            if (d.knownNodes.lookup id).map (·.addr) =
              (s.daemon.knownNodes.lookup id).map (·.addr) then s.moved id else s.now }
    else none
  | .wait seconds =>
    let now := s.now + seconds
    if (HashMap.values s.daemon.knownNodes).all fun node =>
        node.addr.isEmpty || now ≤ s.synced node.addr + 10 then
      some
        { s with
          now
          synced := fun addr =>
            if knowsAddr s.daemon.knownNodes addr then s.synced addr else now }
    else none

def system : Transition Timed TimedAct :=
  Transition.ofNext (fun s => s.daemon.knownNodes = ∅ ∧ ∀ addr, s.synced addr = s.now) next

/-- The node keeps an address, each one for more than 10 s. -/
def Direct (x : String) (s t : Timed) : Prop :=
  ∀ node, t.daemon.knownNodes.lookup x = some node → node.addr ≠ "" ∧
    ∀ old, s.daemon.knownNodes.lookup x = some old → old.addr ≠ node.addr → s.moved x + 10 < s.now

def direct (x : String) : Transition Timed TimedAct := system.restrict fun s _ t => Direct x s t

structure Clocked (s : Timed) : Prop where
  bounded : ∀ addr, s.synced addr ≤ s.now
  unknown : ∀ addr, knowsAddr s.daemon.knownNodes addr = false → s.synced addr = s.now
  due : ∀ addr, addr ≠ "" → s.now ≤ s.synced addr + 10

/-- The marker of the node is at most 10 s older than its present address, and at least as recent
as the last sync with that address. -/
def Confirmed (x : String) (s : Timed) : Prop :=
  ∀ node, s.daemon.knownNodes.lookup x = some node → node.addr ≠ "" ∧
    ∃ seen, node.lastSeen = some (Duration.fromSecs seen) ∧ seen ≤ s.now ∧
      s.moved x ≤ seen + 10 ∧ (s.moved x < s.synced node.addr → s.synced node.addr ≤ seen)

variable {s t : Timed} {a : TimedAct} {x : String}

theorem next_cases (h : s.next a = some t) :
    (∃ act, (∀ u ∈ act.time?, u = Duration.fromSecs s.now) ∧
      t.daemon = s.daemon.handle act ∧ t.now = s.now ∧
      (∀ addr, t.synced addr =
        if act.syncsWith addr || !knowsAddr t.daemon.knownNodes addr then s.now
        else s.synced addr) ∧
      ∀ id, t.moved id =
        if (t.daemon.knownNodes.lookup id).map (·.addr) =
          (s.daemon.knownNodes.lookup id).map (·.addr) then s.moved id else s.now) ∨
    (t.daemon = s.daemon ∧ s.now ≤ t.now ∧ t.moved = s.moved ∧
      (∀ addr, addr ≠ "" → knowsAddr s.daemon.knownNodes addr = true →
        t.now ≤ s.synced addr + 10) ∧
      ∀ addr, t.synced addr =
        if knowsAddr s.daemon.knownNodes addr then s.synced addr else t.now) := by
  cases a with
  | handle act =>
    simp only [next] at h
    split_ifs at h with ht
    obtain rfl := Option.some.inj h
    refine .inl ⟨act, fun u hu => ?_, rfl, rfl, fun _ => rfl, fun _ => rfl⟩
    rw [Option.mem_def] at hu
    simpa [hu] using ht
  | wait seconds =>
    simp only [next] at h
    split_ifs at h with hdue
    obtain rfl := Option.some.inj h
    refine .inr ⟨rfl, Nat.le_add_right _ _, rfl, fun addr hne hk => ?_, fun _ => rfl⟩
    obtain ⟨node, hn, ha⟩ := List.any_eq_true.mp hk
    obtain rfl : node.addr = addr := by simpa using ha
    simpa [hne] using List.all_eq_true.mp hdue node hn

theorem Clocked.step (hs : Clocked s) (h : s.next a = some t) : Clocked t := by
  rcases next_cases h with ⟨act, _, _, hnow, hsync, _⟩ | ⟨hd, hnow, _, hdue, hsync⟩
  · refine ⟨fun addr => ?_, fun addr hk => ?_, fun addr hne => ?_⟩
    · rw [hsync, hnow]
      split_ifs
      · exact le_rfl
      · exact hs.bounded addr
    · rw [hsync, hnow, hk]
      simp
    · rw [hsync, hnow]
      split_ifs
      · omega
      · exact hs.due addr hne
  · refine ⟨fun addr => ?_, fun addr hk => ?_, fun addr hne => ?_⟩
    · rw [hsync]
      split_ifs
      · exact (hs.bounded addr).trans hnow
      · exact le_rfl
    · rw [hd] at hk
      rw [hsync, hk]
      simp
    · rw [hsync]
      split_ifs with hk
      · exact hdue addr hne hk
      · omega

/-- An entry at an address that was synced with is refreshed, at any other it is as it was or
new, and moves only if it had settled before. -/
theorem Confirmed.handle {act : TableAct} (hc : Clocked s) (hs : Confirmed x s)
    (ht : Clocked t) (hdir : Direct x s t) (htime : ∀ u ∈ act.time?, u = Duration.fromSecs s.now)
    (hd : t.daemon = s.daemon.handle act) (hnow : t.now = s.now)
    (hsync : ∀ addr, t.synced addr =
      if act.syncsWith addr || !knowsAddr t.daemon.knownNodes addr then s.now else s.synced addr)
    (hmoved : ∀ id, t.moved id = if (t.daemon.knownNodes.lookup id).map (·.addr) =
      (s.daemon.knownNodes.lookup id).map (·.addr) then s.moved id else s.now) :
    Confirmed x t := by
  intro node hn
  obtain ⟨hne, hsettled⟩ := hdir node hn
  refine ⟨hne, ?_⟩
  have hn' := hn
  rw [hd] at hn'
  rcases seenSince_handle s.daemon htime x node hn' with ⟨hnone, hseen⟩ | ⟨old, hold, hseen⟩
  · -- The entry is new.
    refine ⟨s.now, hseen, hnow.ge, ?_, fun _ => ?_⟩
    · rw [hmoved, hn, hnone]
      simp
    · exact (ht.bounded _).trans_eq hnow
  · obtain ⟨hne', seen, hlast, hle, hmv, hsy⟩ := hs old hold
    by_cases hsame : old.addr = node.addr
    · have hm : t.moved x = s.moved x := by rw [hmoved, hn, hold]; simp [hsame]
      by_cases hsw : act.syncsWith node.addr = true
      · refine ⟨s.now, seen_of_syncsWith hsw htime hn' rfl hne, hnow.ge, by omega, fun _ => ?_⟩
        exact (ht.bounded _).trans_eq hnow
      · have hsyn : t.synced node.addr = s.synced node.addr := by
          rw [hsync, knowsAddr_of_lookup hn]
          simp [hsw]
        rcases hseen with hseen | hseen
        · refine ⟨seen, hseen.trans hlast, by omega, by omega, fun hlt => ?_⟩
          rw [hsyn] at hlt ⊢
          rw [hsame] at hsy
          exact hsy (by omega)
        · exact ⟨s.now, hseen, hnow.ge, by omega, fun _ => (ht.bounded _).trans_eq hnow⟩
    · have hset := hsettled old hold hsame
      have hdue := hc.due old.addr hne'
      have hrecent : s.now ≤ seen + 10 := by
        have := hsy (by omega)
        omega
      have hm : t.moved x = s.now := by rw [hmoved, hn, hold]; simp [Ne.symm hsame]
      have hbound := (ht.bounded node.addr).trans_eq hnow
      rcases hseen with hseen | hseen
      · exact ⟨seen, hseen.trans hlast, by omega, by omega, by omega⟩
      · exact ⟨s.now, hseen, hnow.ge, by omega, by omega⟩

theorem Confirmed.step (hc : Clocked s) (hs : Confirmed x s) (h : (direct x).step s a t) :
    Confirmed x t := by
  obtain ⟨hn : s.next a = some t, hdir⟩ := h
  have ht := hc.step hn
  rcases next_cases hn with ⟨act, htime, hd, hnow, hsync, hmoved⟩ | ⟨hd, hnow, hmoved, _, hsync⟩
  · exact hs.handle hc ht hdir htime hd hnow hsync hmoved
  · intro node hlook
    rw [hd] at hlook
    obtain ⟨hne, seen, hlast, hle, hmv, hsy⟩ := hs node hlook
    refine ⟨hne, seen, hlast, hle.trans hnow, by rwa [hmoved], fun hlt => ?_⟩
    rw [hsync, knowsAddr_of_lookup hlook, if_pos rfl] at hlt ⊢
    rw [hmoved] at hlt
    exact hsy hlt

theorem Confirmed.recent (hc : Clocked s) (hs : Confirmed x s) {node : NodeInfo}
    (hn : s.daemon.knownNodes.lookup x = some node) :
    ∃ seen, node.lastSeen = some (Duration.fromSecs seen) ∧ s.now ≤ seen + 20 := by
  obtain ⟨hne, seen, hlast, _, hmv, hsy⟩ := hs node hn
  have hdue := hc.due node.addr hne
  refine ⟨seen, hlast, ?_⟩
  by_cases hlt : s.moved x < s.synced node.addr
  · have := hsy hlt
    omega
  · omega

theorem fromSecs_sub_le {a b c : ℕ} (h : a ≤ b + c) :
    Duration.fromSecs a - Duration.fromSecs b ≤ Duration.fromSecs c := by
  have hmul : a * 1000000000 - b * 1000000000 ≤ c * 1000000000 := by omega
  exact hmul

theorem isLive_of_lastSeen {c : Backend} {now seen : Instant} (h : c.node.lastSeen = some seen)
    (hw : now - seen ≤ nodeStaleAfter) : c.isLive now = true := by
  rw [Backend.isLive, h, Option.any_some]
  exact decide_eq_true hw

/-- While a node is reached directly, its marker is never older than 30 s and its instances are
never dropped as stale. -/
theorem live_of_direct (h : (direct x).Reachable s) {node : NodeInfo}
    (hn : s.daemon.knownNodes.lookup x = some node) :
    (∃ seen, node.lastSeen = some seen ∧ Duration.fromSecs s.now - seen ≤ nodeStaleAfter) ∧
      ∀ (backends : List Backend) (c : Backend), c ∈ backends → c.node = node →
        c ∈ prefer backends (·.isLive (Duration.fromSecs s.now)) := by
  have hboth : Clocked s ∧ Confirmed x s := by
    refine h.invariant (I := fun s => Clocked s ∧ Confirmed x s) ?_ ?_
    · rintro s ⟨hempty, hsync⟩
      refine ⟨⟨fun addr => (hsync addr).le, fun addr _ => hsync addr, fun addr _ => ?_⟩, ?_⟩
      · rw [hsync]
        omega
      · intro node hn
        simp [hempty] at hn
    · rintro s a t ⟨hc, hs⟩ hstep
      exact ⟨hc.step hstep.1, hs.step hc hstep⟩
  obtain ⟨seen, hlast, hage⟩ := hboth.2.recent hboth.1 hn
  have hwithin : Duration.fromSecs s.now - Duration.fromSecs seen ≤ nodeStaleAfter := by
    rw [nodeStaleAfter]
    apply fromSecs_sub_le
    omega
  refine ⟨⟨_, hlast, hwithin⟩, ?_⟩
  rintro backends c hc rfl
  have hlive := isLive_of_lastSeen hlast hwithin
  rw [prefer_eq_filterOrAll]
  exact (List.mem_filterOrAll hc hlive).mpr ⟨hc, hlive⟩

/-! ## Without an address -/

/-- The runs in which the node stays known without an address and does not register again. -/
def silent (x : String) : Transition Timed TimedAct :=
  system.restrict fun _ a t =>
    (∀ timestampMs nowMs now, a ≠ .handle (.reverseRegistration x timestampMs nowMs now)) ∧
      ∃ node, t.daemon.knownNodes.lookup x = some node ∧ node.addr = ""

/-- The marker of such a node stands still, whatever the daemon syncs with. -/
theorem markedAt_of_silent {seen : Option Instant} (h : (silent x).Reaches s t)
    (hs : MarkedAt x seen s.daemon.knownNodes) : MarkedAt x seen t.daemon.knownNodes := by
  refine h.preserves (I := fun t => MarkedAt x seen t.daemon.knownNodes) ?_ hs
  rintro s a t hm ⟨hn : s.next a = some t, hreg, node, hl, haddr⟩
  cases a with
  | handle act =>
    simp only [next] at hn
    split_ifs at hn
    obtain rfl := Option.some.inj hn
    refine ⟨node, hl, markedAt_handle hm (fun timestampMs nowMs now he => ?_) hl haddr⟩
    exact hreg timestampMs nowMs now (by rw [he])
  | wait seconds =>
    simp only [next] at hn
    split_ifs at hn
    obtain rfl := Option.some.inj hn
    exact hm

/-- So it is stale 30 s after it was set. -/
theorem stale_of_silent {seen : ℕ} (h : (silent x).Reaches s t)
    (hs : MarkedAt x (some (Duration.fromSecs seen)) s.daemon.knownNodes)
    (hlate : seen + 30 < t.now) {c : Backend}
    (hc : t.daemon.knownNodes.lookup x = some c.node) :
    c.isLive (Duration.fromSecs t.now) = false := by
  obtain ⟨node, hl, hseen⟩ := markedAt_of_silent h hs
  obtain rfl := Option.some.inj (hl.symm.trans hc)
  have hmul : ¬ t.now * 1000000000 - seen * 1000000000 ≤ 30 * 1000000000 := by omega
  rw [Backend.isLive, hseen, Option.any_some]
  exact decide_eq_false hmul

def start : Timed where
  daemon := .new { Config.default with nodeId := "s" } ⟨.default, none⟩
  now := 0
  synced := fun _ => 0
  moved := fun _ => 0

def syncWithR (now : ℕ) (relayed : List NodeInfo) : TimedAct :=
  .handle (.outboundSync "10.0.0.2:8080"
    (⟨"r", "10.0.0.2:8080", none, none, .default⟩ :: relayed) (Duration.fromSecs now))

def syncedR : Timed := Transition.run next start [syncWithR 0 []]

def waitedR : Timed := Transition.run next syncedR [.wait 10]

theorem live_of_direct_waitedR :
    (direct "r").Reachable waitedR ∧ ∃ node,
      waitedR.daemon.knownNodes.lookup "r" = some node ∧ ∃ seen, node.lastSeen = some seen ∧
        Duration.fromSecs waitedR.now - seen ≤ nodeStaleAfter := by
  have h₀ : (direct "r").Reachable start := .of_init ⟨rfl, fun _ => rfl⟩
  have hl₁ : syncedR.daemon.knownNodes.lookup "r" =
      some ⟨"r", "10.0.0.2:8080", none, some 0, .default⟩ := by decide +kernel
  have hl₂ : waitedR.daemon.knownNodes.lookup "r" =
      some ⟨"r", "10.0.0.2:8080", none, some 0, .default⟩ := by decide +kernel
  have h₁ : (direct "r").Reachable syncedR := by
    refine h₀.snoc (a := syncWithR 0 []) ⟨Transition.next_eq_some_run (by decide +kernel), ?_⟩
    intro node hn
    obtain rfl := Option.some.inj (hl₁.symm.trans hn)
    exact ⟨by decide +kernel, fun old ho => by cases ho⟩
  have h₂ : (direct "r").Reachable waitedR := by
    refine h₁.snoc (a := TimedAct.wait 10) ⟨Transition.next_eq_some_run (by decide +kernel), ?_⟩
    intro node hn
    obtain rfl := Option.some.inj (hl₂.symm.trans hn)
    refine ⟨by decide +kernel, fun old ho hne => ?_⟩
    obtain rfl := Option.some.inj (hl₁.symm.trans ho)
    exact absurd rfl hne
  exact ⟨h₂, _, hl₂, (live_of_direct h₂ hl₂).1⟩

/-- The entry of `x`, which is behind NAT and registered at `r`. -/
def relayedX : NodeInfo := ⟨"x", "", some "10.0.0.2:8080", none, .default⟩

/-- The subscriber syncs with `r` at 0, 10, 20 and 30 s, and one more second passes. -/
def unseenX : Timed :=
  Transition.run next start [syncWithR 0 [relayedX], .wait 10, syncWithR 10 [relayedX], .wait 10,
    syncWithR 20 [relayedX], .wait 10, syncWithR 30 [relayedX], .wait 1]

def instanceOf (node : NodeInfo) : Backend := ⟨node, 1, none, none, ∅⟩

/-- After 31 s the subscriber drops the instance of `x` as stale and keeps the one of `r`. -/
theorem stale_unseenX :
    system.Reachable unseenX ∧
      ∃ x r, unseenX.daemon.knownNodes.lookup "x" = some x ∧
        unseenX.daemon.knownNodes.lookup "r" = some r ∧
        x.lastSeen = some 0 ∧ Duration.fromSecs unseenX.now - 0 > nodeStaleAfter ∧
        prefer [instanceOf x, instanceOf r] (·.isLive (Duration.fromSecs unseenX.now)) =
          [instanceOf r] :=
  ⟨⟨start, ⟨rfl, fun _ => rfl⟩, Transition.reaches_run (by decide +kernel)⟩, _, _, rfl, rfl, rfl,
    by decide +kernel, rfl⟩

end Timed

end Stouter
