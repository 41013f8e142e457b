import Stouter.Subscribe.MuxPool
import Stouter.Subscribe.StreamPool

/-! # Warm connections

`fill_tunnel_pool` keeps connections ready for `establish_tunnel`. A pass looks
at every known node, one after the other, and lists its address when the pool
has too few connections to it; then it connects once for each listed address.
Tunnels take connections at any time, also within a pass, and nodes behind one
relay share its address, so that a pass can list an address several times.
-/

namespace Stouter

def poolTarget : ℕ := 8

/-- The tunnel pool and its filler: `todo` are the addresses of the nodes that the pass has still
to look at, `addrs` those it has still to connect to. A connection is known by its number, and
`dialed` has the address of each. -/
structure WarmPool where
  pool : StreamPool ℕ
  todo : List String
  addrs : List String
  dialed : List String

inductive WarmAct
  | load (known : NodeMap)
  | look
  | connect (ok : Bool)
  | call (a : PoolAct ℕ)

def PoolAct.inserts {τ : Type} : PoolAct τ → Bool
  | .pushInsert _ _ => true
  | _ => false

namespace WarmPool

def count (s : WarmPool) (addr : String) : ℕ := (s.pool.idle addr).length

/-- The filler alone inserts connections; every other call of the pool is somebody else's or the
end of its own push. -/
def next (s : WarmPool) : WarmAct → Option WarmPool
  | .load known =>
    if s.todo = [] ∧ s.addrs = [] then some { s with todo := known.values.map NodeInfo.connectAddr }
    else none
  | .look =>
    match s.todo with
    | [] => none
    | addr :: todo =>
      if addr.isEmpty || poolTarget ≤ s.count addr then some { s with todo }
      else some { s with todo, addrs := s.addrs ++ [addr] }
  | .connect ok =>
    match s.todo, s.addrs with
    | [], addr :: addrs =>
      if ok then (s.pool.next (.pushInsert addr s.dialed.length)).map fun pool =>
        { s with pool, addrs, dialed := s.dialed ++ [addr] }
      else some { s with addrs }
    | _, _ => none
  | .call a => if a.inserts then none else (s.pool.next a).map fun pool => { s with pool }

def start : WarmPool := ⟨.new, [], [], []⟩

/-- How many of the nodes are connected to at the address. -/
def sharing (known : NodeMap) (addr : String) : ℕ :=
  (known.values.map NodeInfo.connectAddr).count addr

/-- The pool of a daemon whose passes so far have seen at most `m addr` nodes share an address. -/
def system (m : String → ℕ) : Transition WarmPool WarmAct :=
  (Transition.ofNext (· = start) next).restrict fun _ a _ =>
    ∀ known, a = .load known → ∀ addr, sharing known addr ≤ m addr

end WarmPool

/-! ## Calls that insert nothing -/

namespace StreamPool

variable {τ : Type} {s t : StreamPool τ} {a : PoolAct τ}

theorem notifyOne_keeps {key : String} {woken : ℕ} (h : s.notifyOne key woken = some t) :
    t.connections = s.connections ∧ t.pushed = s.pushed ∧ t.returned = s.returned := by
  unfold notifyOne at h
  split_ifs at h
  · split at h
    · split_ifs at h
      obtain rfl := Option.some.inj h
      exact ⟨rfl, rfl, rfl⟩
    · cases h
  · obtain rfl := Option.some.inj h
    exact ⟨rfl, rfl, rfl⟩

theorem dropWaiter_keeps {key : String} {w : Waiter} {passes : Bool} {woken : ℕ}
    (h : s.dropWaiter key w passes woken = some t) :
    t.connections = s.connections ∧ t.pushed = s.pushed ∧ t.returned = s.returned := by
  cases w with
  | waiting =>
    obtain rfl := Option.some.inj h
    exact ⟨rfl, rfl, rfl⟩
  | notified => exact notifyOne_keeps h
  | ready =>
    unfold dropWaiter at h
    dsimp only at h
    split_ifs at h
    · exact notifyOne_keeps h
    · obtain rfl := Option.some.inj h
      exact ⟨rfl, rfl, rfl⟩

def Pops (s t : StreamPool τ) : Prop :=
  ∃ key stream, (s.idle key).getLast? = some stream ∧
    t.connections = s.connections.insert key (s.idle key).dropLast ∧
    t.returned = (key, stream) :: s.returned

theorem pushed_and_connections_of_next (h : s.next a = some t) (ha : a.inserts = false) :
    t.pushed = s.pushed ∧
      (t.connections = s.connections ∧ t.returned = s.returned ∨ s.Pops t) := by
  cases a with
  | pushInsert key stream => cases ha
  | pushFetch i =>
    simp only [next] at h
    split at h
    · split_ifs at h <;> obtain rfl := Option.some.inj h <;> exact ⟨rfl, .inl ⟨rfl, rfl⟩⟩
    · cases h
  | pushNotify i woken =>
    simp only [next] at h
    split at h
    · obtain ⟨hconns, hpushed, hreturned⟩ := notifyOne_keeps h
      exact ⟨hpushed, .inl ⟨hconns, hreturned⟩⟩
    · cases h
  | takeStart key =>
    obtain rfl := Option.some.inj h
    exact ⟨rfl, .inl ⟨rfl, rfl⟩⟩
  | takeNotifier i =>
    simp only [next] at h
    split at h
    · obtain rfl := Option.some.inj h
      exact ⟨rfl, .inl ⟨rfl, rfl⟩⟩
    · cases h
  | takeEnable i =>
    simp only [next] at h
    split at h
    · split_ifs at h <;> obtain rfl := Option.some.inj h <;> exact ⟨rfl, .inl ⟨rfl, rfl⟩⟩
    · cases h
  | takeCheck i passes woken =>
    simp only [next] at h
    split at h
    · next key w _ _ =>
      split at h
      · next stream hlast =>
        obtain ⟨hconns, hpushed, hreturned⟩ := dropWaiter_keeps h
        exact ⟨hpushed, .inr ⟨key, stream, hlast, hconns, hreturned⟩⟩
      · obtain rfl := Option.some.inj h
        exact ⟨rfl, .inl ⟨rfl, rfl⟩⟩
    · cases h
  | takeWake i =>
    simp only [next] at h
    split at h
    · split_ifs at h
      obtain rfl := Option.some.inj h
      exact ⟨rfl, .inl ⟨rfl, rfl⟩⟩
    · cases h
  | takeTimeout i passes woken =>
    simp only [next] at h
    split at h
    · obtain ⟨hconns, hpushed, hreturned⟩ := dropWaiter_keeps h
      exact ⟨hpushed, .inl ⟨hconns, hreturned⟩⟩
    · cases h
  | tryTake key =>
    simp only [next] at h
    split at h
    · next stream hlast =>
      obtain rfl := Option.some.inj h
      exact ⟨rfl, .inr ⟨key, stream, hlast, rfl, rfl⟩⟩
    · obtain rfl := Option.some.inj h
      exact ⟨rfl, .inl ⟨rfl, rfl⟩⟩

theorem idle_sublist_of_next (h : s.next a = some t) (ha : a.inserts = false) (k : String) :
    (t.idle k).Sublist (s.idle k) := by
  obtain ⟨-, ⟨hconns, -⟩ | ⟨key, stream, -, hconns, -⟩⟩ := pushed_and_connections_of_next h ha
  · rw [idle, hconns, idle]
  · rw [idle, hconns, idle_insert]
    split_ifs with hk
    · subst hk
      exact List.dropLast_sublist _
    · exact List.Sublist.refl _

/-! ## Numbered connections -/

/-- The connections are numbers, each pushed once, under the key `key` has for it. -/
structure Numbered (key : ℕ → Option String) (s : StreamPool ℕ) : Prop where
  sound : s.Sound fun _ => 0
  keyed : ∀ p ∈ s.pushed, key p.2 = some p.1
  nodup : s.pushed.Nodup

section Numbered

variable {s t : StreamPool ℕ} {a : PoolAct ℕ} {key key' : ℕ → Option String} {k : String} {n : ℕ}

theorem numbered_new (key : ℕ → Option String) : (new : StreamPool ℕ).Numbered key :=
  ⟨sound_new, by simp [new], by simp [new]⟩

theorem Numbered.mono (hs : s.Numbered key)
    (hkey : ∀ n k, key n = some k → key' n = some k) : s.Numbered key' :=
  ⟨hs.sound, fun p hp => hkey p.2 p.1 (hs.keyed p hp), hs.nodup⟩

theorem Numbered.call (hs : s.Numbered key) (h : s.next a = some t) (ha : a.inserts = false) :
    t.Numbered key := by
  have hpushed := (pushed_and_connections_of_next h ha).1
  exact ⟨hs.sound.step h, hpushed ▸ hs.keyed, hpushed ▸ hs.nodup⟩

theorem Numbered.pushInsert (hs : s.Numbered key) (h : s.next (.pushInsert k n) = some t)
    (hfresh : key n = none) (hkey : ∀ n k, key n = some k → key' n = some k)
    (hn : key' n = some k) : t.Numbered key' := by
  have hsound := hs.sound.step h
  obtain rfl := Option.some.inj h
  refine ⟨hsound, ?_, List.nodup_cons.mpr ⟨fun hmem => ?_, hs.nodup⟩⟩
  · rintro p hp
    rcases List.mem_cons.mp hp with rfl | hp
    · exact hn
    · exact hkey p.2 p.1 (hs.keyed p hp)
  · rw [hs.keyed _ hmem] at hfresh
    cases hfresh

theorem Numbered.count_le_one (hs : s.Numbered key) (k : String) (n : ℕ) :
    (s.idle k).count n + s.returned.count (k, n) ≤ 1 := by
  rw [← hs.sound.kept]
  exact List.nodup_iff_count_le_one.mp hs.nodup _

theorem Numbered.key_of_pushed (hs : s.Numbered key) (h : 0 < s.pushed.count (k, n)) :
    key n = some k :=
  hs.keyed (k, n) (List.count_pos_iff.mp h)

theorem Numbered.key_of_idle (hs : s.Numbered key) (h : n ∈ s.idle k) : key n = some k := by
  refine hs.key_of_pushed ?_
  rw [hs.sound.kept]
  exact Nat.add_pos_left (List.count_pos_iff.mpr h) _

theorem Numbered.key_of_returned (hs : s.Numbered key) (h : (k, n) ∈ s.returned) :
    key n = some k := by
  refine hs.key_of_pushed ?_
  rw [hs.sound.kept]
  exact Nat.add_pos_right _ (List.count_pos_iff.mpr h)

theorem Numbered.nodup_returned (hs : s.Numbered key) : (s.returned.map Prod.snd).Nodup := by
  have hnodup : s.returned.Nodup := by
    refine List.nodup_iff_count_le_one.mpr fun p => ?_
    exact (Nat.le_add_left _ _).trans (hs.count_le_one p.1 p.2)
  refine List.Nodup.map_on (fun x hx y hy hxy => ?_) hnodup
  have hx' := hs.key_of_returned hx
  rw [hxy, hs.key_of_returned hy] at hx'
  exact Prod.ext (Option.some.inj hx').symm hxy

/-- The connections that have been returned since the pool was `s`. -/
def takenSince (t s : StreamPool ℕ) : List ℕ :=
  (t.returned.take (t.returned.length - s.returned.length)).map Prod.snd

theorem takenSince_of_eq (h : t.returned = s.returned) : t.takenSince s = [] := by
  rw [takenSince, h, Nat.sub_self, List.take_zero, List.map_nil]

theorem takenSince_of_cons (h : t.returned = (k, n) :: s.returned) : t.takenSince s = [n] := by
  rw [takenSince, h, List.length_cons, Nat.add_sub_cancel_left]
  rfl

/-- A connection that is popped was idle under one key only. It stays in one place if it was. -/
theorem Numbered.alone_of_next (hs : s.Numbered key) (h : s.next a = some t)
    (ha : a.inserts = false) {b : ℕ} (halone : ∀ k, (s.idle k).count n + b ≤ 1) (k : String) :
    (t.idle k).count n + (b + (t.takenSince s).count n) ≤ 1 := by
  rcases (pushed_and_connections_of_next h ha).2 with ⟨hconns, hreturned⟩ |
    ⟨k', m, hlast, hconns, hreturned⟩
  · rw [takenSince_of_eq hreturned, List.count_nil, Nat.add_zero, idle, hconns]
    exact halone k
  · rw [takenSince_of_cons hreturned, List.count_singleton, idle, hconns, idle_insert]
    have hcount : (s.idle k').count n = (s.idle k').dropLast.count n + [m].count n := by
      rw [← List.count_append, List.dropLast_append_getLast? m hlast]
    rw [List.count_singleton] at hcount
    have hk' := halone k'
    by_cases hk : k = k'
    · rw [if_pos hk]
      omega
    · rw [if_neg hk]
      by_cases hm : m = n
      · subst hm
        have hzero : (s.idle k).count m = 0 := by
          refine List.count_eq_zero.mpr fun hmem => hk ?_
          have hkey := hs.key_of_idle hmem
          rw [hs.key_of_idle (List.mem_of_getLast? hlast)] at hkey
          exact (Option.some.inj hkey).symm
        omega
      · rw [if_neg (by simpa using hm)]
        exact halone k

end Numbered

end StreamPool

/-! ## The filler -/

namespace WarmPool

variable {s t : WarmPool} {a : WarmAct} {m : String → ℕ} {addr : String}

/-- The connections under an address were dialed to it, each once, and none to an empty address; a
pass lists an address at most once for each node that has it; and the connections that are there
and those still to come stay below the bound. -/
structure Sound (m : String → ℕ) (s : WarmPool) : Prop where
  numbered : s.pool.Numbered (s.dialed[·]?)
  named : "" ∉ s.dialed ++ s.addrs
  share : ∀ addr, s.addrs.count addr + s.todo.count addr ≤ m addr
  bound : ∀ addr, s.count addr + s.addrs.count addr ≤ poolTarget - 1 + m addr

theorem sound_start : start.Sound m := by
  constructor
  · exact StreamPool.numbered_new _
  · simp [start]
  · simp [start]
  · simp [start, StreamPool.new, count, StreamPool.idle]

theorem Sound.load {known : NodeMap} (hs : s.Sound m) (haddrs : s.addrs = [])
    (hm : ∀ addr, sharing known addr ≤ m addr) :
    Sound m { s with todo := known.values.map NodeInfo.connectAddr } := by
  refine { hs with share := fun addr => ?_ }
  change s.addrs.count addr + _ ≤ m addr
  rw [haddrs, List.count_nil, Nat.zero_add]
  exact hm addr

theorem Sound.passOver {todo : List String} (hs : s.Sound m) (htodo : s.todo = addr :: todo) :
    Sound m { s with todo } := by
  refine { hs with share := fun addr' => (Nat.add_le_add_left ?_ _).trans (hs.share addr') }
  rw [htodo]
  exact (List.sublist_cons_self addr todo).count_le addr'

theorem Sound.list {todo : List String} (hs : s.Sound m) (htodo : s.todo = addr :: todo)
    (hempty : addr ≠ "") (hroom : s.count addr < poolTarget) :
    Sound m { s with todo, addrs := s.addrs ++ [addr] } := by
  refine { hs with named := ?_, share := fun addr' => ?_, bound := fun addr' => ?_ }
  · have hnamed := hs.named
    simp only [List.mem_append, List.mem_singleton] at hnamed ⊢
    tauto
  · have hshare := hs.share addr'
    rw [htodo, List.count_cons] at hshare
    rw [List.count_append, List.count_singleton]
    dsimp only
    omega
  · change s.count addr' + (s.addrs ++ [addr]).count addr' ≤ _
    rw [List.count_append, List.count_singleton]
    by_cases haddr : addr = addr'
    · -- Each listing of the address is another node's.
      subst haddr
      have hshare := hs.share addr
      rw [htodo, List.count_cons_self] at hshare
      rw [if_pos (beq_self_eq_true addr)]
      omega
    · rw [if_neg (by simpa using haddr)]
      exact hs.bound addr'

theorem Sound.skip {addrs : List String} (hs : s.Sound m) (haddrs : s.addrs = addr :: addrs) :
    Sound m { s with addrs } := by
  have hsub : ∀ addr', addrs.count addr' ≤ s.addrs.count addr' := by
    intro addr'
    rw [haddrs]
    exact (List.sublist_cons_self addr addrs).count_le addr'
  refine { hs with named := ?_, share := fun addr' => ?_, bound := fun addr' => ?_ }
  · have hnamed := hs.named
    rw [haddrs] at hnamed
    simp only [List.mem_append, List.mem_cons] at hnamed ⊢
    tauto
  · exact (Nat.add_le_add_right (hsub addr') _).trans (hs.share addr')
  · exact (Nat.add_le_add_left (hsub addr') _).trans (hs.bound addr')

theorem Sound.connect {addrs : List String} {pool : StreamPool ℕ} (hs : s.Sound m)
    (haddrs : s.addrs = addr :: addrs)
    (hpool : s.pool.next (.pushInsert addr s.dialed.length) = some pool) :
    Sound m { s with pool, addrs, dialed := s.dialed ++ [addr] } := by
  have hnumbered : pool.Numbered ((s.dialed ++ [addr])[·]?) := by
    refine hs.numbered.pushInsert hpool (List.getElem?_eq_none le_rfl) (fun n k hn => ?_) (by simp)
    rwa [List.getElem?_append_left (List.getElem?_eq_some_iff.mp hn).1]
  obtain rfl := Option.some.inj hpool
  constructor
  · exact hnumbered
  · have hnamed := hs.named
    rw [haddrs] at hnamed
    simpa [List.append_assoc] using hnamed
  · exact (hs.skip haddrs).share
  · intro addr'
    have hbound := hs.bound addr'
    rw [haddrs, List.count_cons] at hbound
    rw [count, StreamPool.idle, StreamPool.idle_insert]
    change List.length (ite _ _ _) + addrs.count addr' ≤ _
    by_cases haddr : addr' = addr
    · subst haddr
      rw [if_pos rfl, List.length_append, List.length_singleton]
      rw [if_pos (beq_self_eq_true _), count] at hbound
      omega
    · rw [if_neg haddr]
      rw [count] at hbound
      omega

theorem Sound.call {c : PoolAct ℕ} {pool : StreamPool ℕ} (hs : s.Sound m)
    (hc : c.inserts = false) (hpool : s.pool.next c = some pool) :
    Sound m { s with pool } := by
  refine { hs with numbered := hs.numbered.call hpool hc, bound := fun addr => ?_ }
  have hle := (StreamPool.idle_sublist_of_next hpool hc addr).length_le
  exact (Nat.add_le_add_right hle _).trans (hs.bound addr)

theorem Sound.step (hs : s.Sound m) (h : (system m).step s a t) : t.Sound m := by
  obtain ⟨h, hm⟩ := h
  cases a with
  | load known =>
    obtain ⟨⟨-, haddrs⟩, h⟩ := Option.ite_none_right_eq_some.mp h
    obtain rfl := Option.some.inj h
    exact hs.load haddrs (hm known rfl)
  | look =>
    simp only [Transition.ofNext, next] at h
    split at h
    · cases h
    · next addr todo htodo =>
      split_ifs at h with hfull
      · obtain rfl := Option.some.inj h
        exact hs.passOver htodo
      · obtain rfl := Option.some.inj h
        simp only [Bool.or_eq_true, String.isEmpty_iff, decide_eq_true_eq, not_or, not_le] at hfull
        exact hs.list htodo hfull.1 hfull.2
  | connect ok =>
    simp only [Transition.ofNext, next] at h
    split at h
    · next addr addrs _ haddrs =>
      split_ifs at h
      · obtain ⟨pool, hpool, rfl⟩ := Option.map_eq_some_iff.mp h
        exact hs.connect haddrs hpool
      · obtain rfl := Option.some.inj h
        exact hs.skip haddrs
    · cases h
  | call c =>
    simp only [Transition.ofNext, next] at h
    split_ifs at h with hc
    obtain ⟨pool, hpool, rfl⟩ := Option.map_eq_some_iff.mp h
    exact hs.call (by simpa using hc) hpool

theorem sound_of_reachable (h : (system m).Reachable s) : s.Sound m := by
  refine h.invariant (I := Sound m) ?_ fun _ _ _ hs hstep => hs.step hstep
  rintro s rfl
  exact sound_start

theorem Sound.idle_eq_nil (hs : s.Sound m) : s.pool.idle "" = [] := by
  refine List.eq_nil_iff_forall_not_mem.mpr fun n hn => hs.named ?_
  exact List.mem_append_left _ (List.mem_of_getElem? (hs.numbered.key_of_idle hn))

/-- No address ever has more warm connections than seven and the most nodes that a pass has seen
share it, and the empty one has none; every connection that is taken was dialed to the address it
is taken for; and no connection is taken twice. -/
theorem warm_pool_bounded (h : (system m).Reachable s) :
    (∀ addr, s.count addr ≤ 7 + m addr) ∧ s.count "" = 0 ∧
    (∀ addr n, (addr, n) ∈ s.pool.returned → s.dialed[n]? = some addr) ∧
    (s.pool.returned.map Prod.snd).Nodup := by
  have hs := sound_of_reachable h
  refine ⟨fun addr => (Nat.le_add_right _ _).trans (hs.bound addr), ?_, fun addr n hn => ?_,
    hs.numbered.nodup_returned⟩
  · rw [count, hs.idle_eq_nil, List.length_nil]
  · exact hs.numbered.key_of_returned hn

def twoBehind : NodeMap :=
  ((∅ : NodeMap).insert "a" ⟨"a", "", some "r:80", none, .default⟩).insert "b"
    ⟨"b", "", some "r:80", none, .default⟩

/-- Four passes fill the pool, one connection is taken, and a fifth pass overshoots. -/
def overshot : List WarmAct :=
  (List.replicate 4 [.load twoBehind, .look, .look, .connect true, .connect true]).flatten ++
    [.call (.tryTake "r:80"), .load twoBehind, .look, .look, .connect true, .connect true]

theorem warm_pool_bounded_overshot :
    (Transition.run next start overshot).count "r:80" = 9 ∧
      (Transition.run next start overshot).pool.returned = [("r:80", 7)] ∧
      (Transition.run next start overshot).count "r:80" ≤ 7 + 2 := by
  have hr : (system (sharing twoBehind)).Reachable (Transition.run next start overshot) := by
    refine ⟨start, rfl, Transition.reaches_of_steps next overshot (fun a ha s t hnext =>
      ⟨hnext, ?_⟩) rfl⟩
    rintro known rfl addr
    have hknown : known = twoBehind := by simpa [overshot, List.replicate] using ha
    rw [hknown]
  have hshared : sharing twoBehind "r:80" = 2 := rfl
  exact ⟨by decide, by decide, hshared ▸ (warm_pool_bounded hr).1 "r:80"⟩

end WarmPool

end Stouter
