import Stouter.Subscribe.Balancer
import Stouter.Transition.Basic

/-! # Slot accounting

A balancer together with the slots it has handed out. The slots outlive the
candidate lists they were granted from, so the count of a node is compared
with the live slots and never with the candidates.
-/

namespace Stouter

/-- The balancer's count of every node is the given number, with no entry for zero. -/
def Balancer.Accounts (b : Balancer) (live : String → ℕ) : Prop :=
  ∀ id, b.active.lookup id = if live id = 0 then none else some (live id)

namespace Balancer

variable {b b' : Balancer} {live live' : String → ℕ} {id : String}

theorem accounts_new (h : ∀ id, live id = 0) : Accounts new live := by
  intro id
  rw [if_pos (h id)]
  rfl

theorem Accounts.activeOn (h : Accounts b live) (id : String) : b.activeOn id = live id := by
  rw [Balancer.activeOn, h id]
  split_ifs with h0
  · exact h0.symm
  · rfl

theorem Accounts.of_active (h : Accounts b live) (ha : b'.active = b.active)
    (hl : ∀ id, live' id = live id) : Accounts b' live' := by
  intro id
  rw [ha, hl id]
  exact h id

theorem Accounts.grant (h : Accounts b live)
    (ha : b'.active = b.active.insert id (b.activeOn id + 1))
    (hl : ∀ k, live' k = if k = id then live k + 1 else live k) : Accounts b' live' := by
  intro k
  rw [ha, HashMap.lookup_insert_eq_ite, h.activeOn, hl k]
  by_cases hk : k = id
  · subst hk
    simp
  · simp only [hk, if_false]
    exact h k

theorem Accounts.lookup_of_pos (h : Accounts b live) (hid : 0 < live id) :
    ∃ n, b.active.lookup id = some (n + 1) := by
  refine ⟨live id - 1, ?_⟩
  rw [h id, if_neg (by omega), Nat.sub_add_cancel hid]

theorem Accounts.dropSlot (h : Accounts b live) (hid : 0 < live id)
    (hl : ∀ k, live' k = if k = id then live k - 1 else live k) :
    Accounts (dropSlot id b) live' := by
  have hlookup : b.active.lookup id = some (live id) := by
    rw [h id, if_neg (by omega)]
  intro k
  unfold Balancer.dropSlot
  simp only [hlookup, hl k]
  by_cases hk : k = id
  · subst hk
    simp only [if_true]
    split_ifs with h0
    · rw [HashMap.lookup_erase_eq_ite, if_pos rfl]
    · rw [HashMap.lookup_insert_eq_ite, if_pos rfl]
  · simp only [hk, if_false]
    rw [← h k]
    split_ifs
    · rw [HashMap.lookup_erase_eq_ite, if_neg hk]
    · rw [HashMap.lookup_insert_eq_ite, if_neg hk]

theorem recordFailure_active (id : String) (now : Instant) (b : Balancer) :
    (b.recordFailure id now).2.active = b.active := by
  unfold recordFailure
  dsimp only
  split_ifs <;> rfl

end Balancer

/-- A balancer and the node ids of its live slots. -/
structure Granted where
  balancer : Balancer
  live : List String

inductive BalancerAct
  | pick (candidates : List Backend) (tried : List String) (now : Instant)
  | dropSlot (id : String)
  | retainNodes (all : List Backend)
  | recordSuccess (id : String)
  | recordFailure (id : String) (now : Instant)

namespace Granted

def afterPick {n : ℕ} (live : List String) : Pick n × Balancer → Granted
  | (.chosen _ slot, b) => ⟨b, slot :: live⟩
  | (_, b) => ⟨b, live⟩

/-- Only a live slot can be dropped. -/
def next (s : Granted) : BalancerAct → Option Granted
  | .pick candidates tried now => some (afterPick s.live (s.balancer.pick candidates tried now))
  | .dropSlot id =>
    if id ∈ s.live then some ⟨s.balancer.dropSlot id, s.live.erase id⟩ else none
  | .retainNodes all => some { s with balancer := s.balancer.retainNodes all }
  | .recordSuccess id => some { s with balancer := s.balancer.recordSuccess id }
  | .recordFailure id now => some { s with balancer := (s.balancer.recordFailure id now).2 }

def system : Transition Granted BalancerAct := Transition.ofNext (· = ⟨.new, []⟩) next

def Sound (s : Granted) : Prop := s.balancer.Accounts fun id => s.live.count id

variable {s t : Granted} {a : BalancerAct}

theorem Sound.afterPick (hs : Sound s) (candidates : List Backend) (tried : List String)
    (now : Instant) :
    Sound (Granted.afterPick s.live (s.balancer.pick candidates tried now)) := by
  rcases s.balancer.pick_cases candidates tried now with
    ⟨_, h⟩ | ⟨_, _, h⟩ | ⟨i, _, current, h⟩
  · rw [h]
    exact hs
  · rw [h]
    exact hs
  · rw [h]
    apply Balancer.Accounts.grant hs rfl
    intro k
    simp only [Granted.afterPick, List.count_cons, beq_iff_eq, eq_comm (a := k)]
    split_ifs <;> rfl

theorem Sound.step (hs : Sound s) (h : next s a = some t) : Sound t := by
  cases a with
  | pick candidates tried now =>
    obtain rfl := Option.some.inj h
    exact hs.afterPick candidates tried now
  | dropSlot id =>
    unfold next at h
    dsimp only at h
    split_ifs at h with hid
    obtain rfl := Option.some.inj h
    apply Balancer.Accounts.dropSlot hs (List.count_pos_iff.mpr hid)
    intro k
    simp only [List.count_erase, beq_iff_eq, eq_comm (a := k)]
    split_ifs <;> rfl
  | retainNodes all =>
    obtain rfl := Option.some.inj h
    exact Balancer.Accounts.of_active hs rfl fun _ => rfl
  | recordSuccess id =>
    obtain rfl := Option.some.inj h
    exact Balancer.Accounts.of_active hs rfl fun _ => rfl
  | recordFailure id now =>
    obtain rfl := Option.some.inj h
    exact Balancer.Accounts.of_active hs (Balancer.recordFailure_active id now s.balancer)
      fun _ => rfl

theorem sound_of_reachable (h : system.Reachable s) : Sound s := by
  refine h.invariant (I := Sound) ?_ fun _ _ _ hs h => hs.step h
  rintro s rfl
  exact Balancer.accounts_new fun _ => rfl

/-- The counts fit their `u32` as long as the live slots do. -/
theorem Sound.lt_of_lookup (hs : Sound s) (hlive : s.live.length < UInt32.size) {id : String}
    {n : ℕ} (hn : s.balancer.active.lookup id = some n) : n < UInt32.size := by
  rw [hs id] at hn
  split_ifs at hn
  obtain rfl := Option.some.inj hn
  exact lt_of_le_of_lt List.count_le_length hlive

/-- In every reachable state the counts are those of the live slots and dropping a live slot finds
a positive count; fewer than `2 ^ 32` live slots keep every count in its `u32`; a pick grants a
slot on an untried node, never beyond its limit, and fails without effect exactly when all
candidates are tried or all untried ones are full. -/
theorem slot_accounting (h : system.Reachable s) :
    (∀ id, s.balancer.active.lookup id =
      if s.live.count id = 0 then none else some (s.live.count id)) ∧
    (∀ id ∈ s.live, ∃ n, s.balancer.active.lookup id = some (n + 1)) ∧
    (s.live.length < UInt32.size →
      ∀ id n, s.balancer.active.lookup id = some n → n < UInt32.size) ∧
    ∀ candidates tried now,
      ((s.balancer.pick candidates tried now).1 = .allTried ↔
        ∀ c ∈ candidates, c.node.id ∈ tried) ∧
      ((s.balancer.pick candidates tried now).1 = .atCapacity ↔
        (∃ c ∈ candidates, c.node.id ∉ tried) ∧ ∀ c ∈ candidates, c.node.id ∉ tried →
          ∃ m, c.maxConnections = some m ∧ m.toNat ≤ s.live.count c.node.id) ∧
      ((s.balancer.pick candidates tried now).1 = .allTried ∨
          (s.balancer.pick candidates tried now).1 = .atCapacity →
        (s.balancer.pick candidates tried now).2 = s.balancer) ∧
      ∀ i slot, (s.balancer.pick candidates tried now).1 = .chosen i slot →
        slot = (candidates.get i).node.id ∧ slot ∉ tried ∧
        ∀ t, next s (.pick candidates tried now) = some t →
          t.live = slot :: s.live ∧
          ∀ m, (candidates.get i).maxConnections = some m → t.live.count slot ≤ m.toNat := by
  have hs := sound_of_reachable h
  refine ⟨hs, fun id hid => Balancer.Accounts.lookup_of_pos hs (List.count_pos_iff.mpr hid),
    fun hlive id n hn => hs.lt_of_lookup hlive hn, fun candidates tried now => ?_⟩
  refine ⟨Balancer.pick_eq_allTried, ?_, Balancer.pick_unchanged, fun i slot hpick => ?_⟩
  · rw [Balancer.pick_eq_atCapacity]
    simp only [Balancer.hasRoom_eq_false, Balancer.Accounts.activeOn hs]
  · obtain ⟨he, rfl⟩ := Balancer.pick_chosen hpick
    obtain ⟨htried, hroom⟩ := Balancer.mem_openSet.mp (Balancer.eligible_subset he)
    refine ⟨rfl, htried, fun t ht => ?_⟩
    have hlive : t.live = (candidates.get i).node.id :: s.live := by
      obtain rfl := Option.some.inj ht
      rcases hp : s.balancer.pick candidates tried now with ⟨_ | _ | _, b⟩ <;>
        rw [hp] at hpick <;> cases hpick
      rfl
    refine ⟨hlive, fun m hm => ?_⟩
    rw [hlive, List.count_cons_self]
    have hlt := Balancer.lt_of_hasRoom hroom hm
    rw [Balancer.Accounts.activeOn hs] at hlt
    omega

def single (id : String) : Backend := ⟨⟨id, "", none, none, .default⟩, 1, some 1, none, ∅⟩

def oneHeld : Granted := Transition.run next ⟨.new, []⟩ [.pick [single "a", single "b"] ["b"] 0]

theorem slot_accounting_oneHeld :
    system.Reachable oneHeld ∧ oneHeld.live = ["a"] ∧
      oneHeld.balancer.active.lookup "a" = some 1 ∧
      (oneHeld.balancer.pick [single "a"] [] 1).1 = .atCapacity := by
  have hr : system.Reachable oneHeld := ⟨_, rfl, Transition.reaches_run rfl⟩
  obtain ⟨hcount, _, _, hpick⟩ := slot_accounting hr
  refine ⟨hr, by decide, hcount "a", ?_⟩
  rw [(hpick [single "a"] [] 1).2.1]
  decide

end Granted

end Stouter
