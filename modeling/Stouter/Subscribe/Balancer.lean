import Mathlib.Algebra.Ring.Int.Defs
import Stouter.Gossip.Membership

/-! # The balancer

Backend selection for one service: smooth weighted round-robin with passive
outlier ejection and a connection limit for each backend. `pick` narrows the
candidates in four stages, each a definition of its own here; the first two
are hard filters, the last two fail open.
-/

namespace Stouter

/-- A length of time, in nanoseconds. -/
abbrev Duration := ℕ

def Duration.fromSecs (n : ℕ) : Duration := n * 1000000000

def ejectAfterFailures : UInt32 := 3

def baseEjection : Duration := .fromSecs 10

def maxEjection : Duration := .fromSecs 120

/-- A node hosting the service, with its configured weight and limit. -/
structure Backend where
  node : NodeInfo
  weight : UInt32
  maxConnections : Option UInt32
  requestTimeout : Option Duration
  labels : Labels
  deriving DecidableEq

structure OutlierState where
  consecutiveFailures : UInt32
  ejections : UInt32
  ejectedUntil : Option Instant
  deriving DecidableEq, Repr

namespace OutlierState

def default : OutlierState := ⟨0, 0, none⟩

def isEjected (o : OutlierState) (now : Instant) : Bool := o.ejectedUntil.any fun t => now < t

end OutlierState

/-- Load balancer state for a single service's proxy. The counts in `active` are of `u32`, whose
range they keep while fewer than `2 ^ 32` connections are open (`Granted.Sound.lt_of_lookup`). -/
structure Balancer where
  current : HashMap String ℤ
  outliers : HashMap String OutlierState
  active : HashMap String ℕ

/-- Outcome of `pick` from `n` candidates: an index with the node id of its slot, or nothing. -/
inductive Pick (n : ℕ)
  | chosen (index : Fin n) (slot : String)
  | allTried
  | atCapacity
  deriving DecidableEq

def failOpen {α : Type*} (set : List α) (keep : α → Bool) : List α := set.filterOrAll keep

namespace Balancer

def new : Balancer := ⟨∅, ∅, ∅⟩

def activeOn (b : Balancer) (id : String) : ℕ := (b.active.lookup id).getD 0

def isEjected (b : Balancer) (id : String) (now : Instant) : Bool :=
  (b.outliers.lookup id).any (·.isEjected now)

def hasRoom (b : Balancer) (c : Backend) : Bool :=
  c.maxConnections.all fun m => b.activeOn c.node.id < m.toNat

section Stages

variable (b : Balancer) (candidates : List Backend) (tried : List String) (now : Instant)

def untried : List (Fin candidates.length) :=
  (List.finRange candidates.length).filter fun i => !tried.contains (candidates.get i).node.id

def openSet : List (Fin candidates.length) :=
  (untried candidates tried).filter fun i => b.hasRoom (candidates.get i)

def undrained : List (Fin candidates.length) :=
  failOpen (b.openSet candidates tried) fun i => (candidates.get i).weight > 0

def eligible : List (Fin candidates.length) :=
  failOpen (b.undrained candidates tried) fun i => !b.isEjected (candidates.get i).node.id now

end Stages

/-- The weight of a candidate in the rotation; drained candidates count 1. -/
def weightOf (c : Backend) : ℤ := max c.weight.toNat 1

/-- One iteration of the selection loop: the running weights and the best candidate so far. -/
def accumulate (candidates : List Backend)
    (acc : HashMap String ℤ × Option (Fin candidates.length × ℤ)) (i : Fin candidates.length) :
    HashMap String ℤ × Option (Fin candidates.length × ℤ) :=
  let id := (candidates.get i).node.id
  let cur := (acc.1.lookup id).getD 0 + weightOf (candidates.get i)
  let best := match acc.2 with
    | none => some (i, cur)
    | some (j, top) => if cur > top then some (i, cur) else some (j, top)
  (acc.1.insert id cur, best)

/-- Pick a backend, skipping node ids in `tried`, and reserve a connection slot on it. -/
def pick (b : Balancer) (candidates : List Backend) (tried : List String) (now : Instant) :
    Pick candidates.length × Balancer :=
  if (untried candidates tried).isEmpty then (.allTried, b)
  else if (b.openSet candidates tried).isEmpty then (.atCapacity, b)
  else
    let eligible := b.eligible candidates tried now
    let total := (eligible.map fun i => weightOf (candidates.get i)).sum
    match eligible.foldl (accumulate candidates) (b.current, none) with
    | (current, some (chosen, _)) =>
      let id := (candidates.get chosen).node.id
      (.chosen chosen id, { b with
        current := HashMap.modify id (· - total) current
        active := b.active.insert id (b.activeOn id + 1) })
    -- `expect("eligible is non-empty")`
    | (_, none) => (.atCapacity, b)

/-- `Drop for Slot`. -/
def dropSlot (id : String) (b : Balancer) : Balancer :=
  match b.active.lookup id with
  | some count =>
    if count - 1 = 0 then { b with active := b.active.erase id }
    else { b with active := b.active.insert id (count - 1) }
  | none => b

def retainNodes (all : List Backend) (b : Balancer) : Balancer :=
  let keep := fun id => all.any (·.node.id == id)
  { b with
    current := HashMap.retain (fun id _ => keep id) b.current
    outliers := HashMap.retain (fun id _ => keep id) b.outliers }

def recordSuccess (id : String) (b : Balancer) : Balancer :=
  { b with outliers := HashMap.modify id (fun _ => .default) b.outliers }

/-- The ejection duration if the failure ejected the node. -/
def recordFailure (id : String) (now : Instant) (b : Balancer) : Option Duration × Balancer :=
  let state := (b.outliers.lookup id).getD .default
  let update := fun state => { b with outliers := b.outliers.insert id state }
  if state.isEjected now then (none, update state)
  else
    let state := { state with consecutiveFailures := state.consecutiveFailures + 1 }
    if state.consecutiveFailures < ejectAfterFailures then (none, update state)
    else
      let ejections := state.ejections + 1
      let factor := 2 ^ min (ejections - 1).toNat 16
      let duration := min (baseEjection * factor) maxEjection
      (some duration, update ⟨0, ejections, some (now + duration)⟩)

/-! ## What a pick does -/

section Spec

variable {b : Balancer} {candidates : List Backend} {tried : List String} {now : Instant}
  {i : Fin candidates.length}

theorem mem_untried : i ∈ untried candidates tried ↔ (candidates.get i).node.id ∉ tried := by
  simp [untried]

theorem mem_openSet :
    i ∈ b.openSet candidates tried ↔
      (candidates.get i).node.id ∉ tried ∧ b.hasRoom (candidates.get i) = true := by
  rw [openSet, List.mem_filter, mem_untried]

theorem eligible_subset (hi : i ∈ b.eligible candidates tried now) :
    i ∈ b.openSet candidates tried :=
  (List.filterOrAll_sublist _ _).subset ((List.filterOrAll_sublist _ _).subset hi)

theorem eligible_eq_nil :
    b.eligible candidates tried now = [] ↔ b.openSet candidates tried = [] := by
  simp [eligible, undrained, failOpen]

theorem accumulate_best (l : List (Fin candidates.length))
    (acc : HashMap String ℤ × Option (Fin candidates.length × ℤ)) :
    (l = [] ∧ l.foldl (accumulate candidates) acc = acc) ∨
      ∃ i top, (i ∈ l ∨ ∃ v, acc.2 = some (i, v)) ∧
        (l.foldl (accumulate candidates) acc).2 = some (i, top) := by
  induction l generalizing acc with
  | nil => exact .inl ⟨rfl, rfl⟩
  | cons j l ih =>
    right
    rw [List.foldl_cons]
    have hstep : ∃ k v, (accumulate candidates acc j).2 = some (k, v) ∧
        (k = j ∨ ∃ w, acc.2 = some (k, w)) := by
      unfold accumulate
      rcases acc with ⟨cur, _ | ⟨k, top⟩⟩
      · exact ⟨j, _, rfl, .inl rfl⟩
      · dsimp only
        split_ifs
        · exact ⟨j, _, rfl, .inl rfl⟩
        · exact ⟨k, _, rfl, .inr ⟨_, rfl⟩⟩
    obtain ⟨k, v, hk, hsrc⟩ := hstep
    have hmem : k ∈ j :: l ∨ ∃ w, acc.2 = some (k, w) := by
      rcases hsrc with rfl | hsrc
      · exact .inl List.mem_cons_self
      · exact .inr hsrc
    rcases ih (accumulate candidates acc j) with ⟨rfl, hl⟩ | ⟨i, top, hi, hl⟩
    · exact ⟨k, v, hmem, by rw [hl, hk]⟩
    · refine ⟨i, top, ?_, hl⟩
      rcases hi with hi | ⟨w, hw⟩
      · exact .inl (List.mem_cons_of_mem j hi)
      · rw [hk] at hw
        obtain rfl : k = i := congrArg Prod.fst (Option.some.inj hw)
        exact hmem

/-- All candidates are tried, or all untried ones are full, or an eligible one is chosen and its
count goes up by one. -/
theorem pick_cases (b : Balancer) (candidates : List Backend) (tried : List String)
    (now : Instant) :
    (untried candidates tried = [] ∧ b.pick candidates tried now = (.allTried, b)) ∨
      (untried candidates tried ≠ [] ∧ b.openSet candidates tried = [] ∧
        b.pick candidates tried now = (.atCapacity, b)) ∨
      ∃ i ∈ b.eligible candidates tried now, ∃ current,
        b.pick candidates tried now =
          (.chosen i (candidates.get i).node.id, { b with
            current
            active := b.active.insert (candidates.get i).node.id
              (b.activeOn (candidates.get i).node.id + 1) }) := by
  unfold pick
  by_cases hu : untried candidates tried = []
  · exact .inl ⟨hu, by simp [hu]⟩
  · by_cases ho : b.openSet candidates tried = []
    · exact .inr (.inl ⟨hu, ho, by simp [hu, ho]⟩)
    · refine .inr (.inr ?_)
      simp only [List.isEmpty_iff, hu, ho, if_false]
      rcases accumulate_best (b.eligible candidates tried now) (b.current, none) with
        ⟨he, _⟩ | ⟨i, top, hi, hbest⟩
      · exact absurd (eligible_eq_nil.mp he) ho
      · have hmem : i ∈ b.eligible candidates tried now := hi.resolve_right (by simp)
        rcases hf : (b.eligible candidates tried now).foldl (accumulate candidates)
          (b.current, none) with ⟨cur, best⟩
        rw [hf] at hbest
        obtain rfl : best = some (i, top) := hbest
        exact ⟨i, hmem, _, rfl⟩

theorem untried_eq_nil : untried candidates tried = [] ↔ ∀ c ∈ candidates, c.node.id ∈ tried := by
  rw [List.eq_nil_iff_forall_not_mem]
  constructor
  · intro h c hc
    obtain ⟨i, rfl⟩ := List.mem_iff_get.mp hc
    by_contra ht
    exact h i (mem_untried.mpr ht)
  · intro h i hi
    exact mem_untried.mp hi (h _ (candidates.get_mem i))

theorem openSet_eq_nil :
    b.openSet candidates tried = [] ↔
      ∀ c ∈ candidates, c.node.id ∉ tried → b.hasRoom c = false := by
  rw [List.eq_nil_iff_forall_not_mem]
  constructor
  · intro h c hc ht
    obtain ⟨i, rfl⟩ := List.mem_iff_get.mp hc
    by_contra hroom
    exact h i (mem_openSet.mpr ⟨ht, Bool.eq_true_of_not_eq_false hroom⟩)
  · intro h i hi
    obtain ⟨ht, hroom⟩ := mem_openSet.mp hi
    rw [h _ (candidates.get_mem i) ht] at hroom
    exact Bool.false_ne_true hroom

theorem pick_eq_allTried :
    (b.pick candidates tried now).1 = .allTried ↔ ∀ c ∈ candidates, c.node.id ∈ tried := by
  rw [← untried_eq_nil]
  rcases b.pick_cases candidates tried now with ⟨hu, h⟩ | ⟨hu, _, h⟩ | ⟨i, hi, _, h⟩
  · simp [h, hu]
  · simp [h, hu]
  · have hu : untried candidates tried ≠ [] :=
      List.ne_nil_of_mem (mem_untried.mpr (mem_openSet.mp (eligible_subset hi)).1)
    simp [h, hu]

theorem pick_eq_atCapacity :
    (b.pick candidates tried now).1 = .atCapacity ↔
      (∃ c ∈ candidates, c.node.id ∉ tried) ∧
        ∀ c ∈ candidates, c.node.id ∉ tried → b.hasRoom c = false := by
  have hex : (∃ c ∈ candidates, c.node.id ∉ tried) ↔ untried candidates tried ≠ [] := by
    rw [ne_eq, untried_eq_nil]
    push Not
    rfl
  rw [← openSet_eq_nil, hex]
  rcases b.pick_cases candidates tried now with ⟨hu, h⟩ | ⟨hu, ho, h⟩ | ⟨i, hi, _, h⟩
  · simp [h, hu]
  · simp [h, hu, ho]
  · simp [h, List.ne_nil_of_mem (eligible_subset hi)]

theorem pick_unchanged
    (h : (b.pick candidates tried now).1 = .allTried ∨
      (b.pick candidates tried now).1 = .atCapacity) :
    (b.pick candidates tried now).2 = b := by
  rcases b.pick_cases candidates tried now with ⟨_, hp⟩ | ⟨_, _, hp⟩ | ⟨i, _, _, hp⟩
  · rw [hp]
  · rw [hp]
  · simp [hp] at h

theorem pick_chosen {slot : String} (h : (b.pick candidates tried now).1 = .chosen i slot) :
    i ∈ b.eligible candidates tried now ∧ slot = (candidates.get i).node.id := by
  rcases b.pick_cases candidates tried now with ⟨_, hp⟩ | ⟨_, _, hp⟩ | ⟨j, hj, _, hp⟩
  · rw [hp] at h
    cases h
  · rw [hp] at h
    cases h
  · rw [hp] at h
    cases h
    exact ⟨hj, rfl⟩

theorem hasRoom_eq_false {c : Backend} :
    b.hasRoom c = false ↔ ∃ m, c.maxConnections = some m ∧ m.toNat ≤ b.activeOn c.node.id := by
  cases hm : c.maxConnections <;> simp [hasRoom, hm]

theorem lt_of_hasRoom {c : Backend} {m : UInt32} (h : b.hasRoom c = true)
    (hm : c.maxConnections = some m) : b.activeOn c.node.id < m.toNat := by
  simpa [hasRoom, hm] using h

end Spec

end Balancer

end Stouter
