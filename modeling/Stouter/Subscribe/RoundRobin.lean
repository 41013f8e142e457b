import Stouter.Rotation.Basic
import Stouter.Subscribe.SlotAccounting

/-! # The running weights

What `pick` does to `current` is a turn of a smooth weighted rotation among the
ids of the eligible candidates. A proxy that keeps picking from the same
candidates shares its connections in proportion to their weights, and the
running weights of any proxy stay bounded, whatever it picks from.
-/

namespace Stouter

namespace Balancer

/-- The running weight of a node, 0 until it is first eligible. -/
def value (b : Balancer) (id : String) : ℤ := (b.current.lookup id).getD 0

def weightAt (candidates : List Backend) (id : String) : ℤ :=
  ((candidates.find? (·.node.id == id)).map weightOf).getD 0

def idsOf (candidates : List Backend) (l : List (Fin candidates.length)) : List String :=
  l.map fun i => (candidates.get i).node.id

variable {b : Balancer} {candidates : List Backend} {tried : List String} {now : Instant}
  {i : Fin candidates.length} {l : List (Fin candidates.length)}

theorem get_id_inj (hd : (candidates.map (·.node.id)).Nodup) {i j : Fin candidates.length}
    (h : (candidates.get i).node.id = (candidates.get j).node.id) : i = j := by
  have hinj := List.nodup_iff_injective_get.mp hd
  have h' := @hinj (i.cast (by simp)) (j.cast (by simp)) (by simpa using h)
  simpa [Fin.ext_iff] using h'

theorem weightAt_get (hd : (candidates.map (·.node.id)).Nodup) (i : Fin candidates.length) :
    weightAt candidates (candidates.get i).node.id = weightOf (candidates.get i) := by
  unfold weightAt
  cases hf : candidates.find? (·.node.id == (candidates.get i).node.id) with
  | none =>
    have hne := List.find?_eq_none.mp hf (candidates.get i) (candidates.get_mem i)
    simp at hne
  | some c =>
    have hid : c.node.id = (candidates.get i).node.id := by simpa using List.find?_some hf
    obtain ⟨j, rfl⟩ := List.mem_iff_get.mp (List.mem_of_find?_eq_some hf)
    rw [get_id_inj hd hid]
    rfl

theorem nodup_idsOf (hd : (candidates.map (·.node.id)).Nodup) (hl : l.Nodup) :
    (idsOf candidates l).Nodup :=
  hl.map fun _ _ h => get_id_inj hd h

theorem mem_idsOf {id : String} :
    id ∈ idsOf candidates l ↔ ∃ i ∈ l, (candidates.get i).node.id = id := by
  simp [idsOf]

theorem mem_idsOf_concat {id : String} {k : Fin candidates.length} :
    id ∈ idsOf candidates (l ++ [k]) ↔
      id ∈ idsOf candidates l ∨ id = (candidates.get k).node.id := by
  simp only [idsOf, List.map_append, List.mem_append, List.map_cons, List.map_nil,
    List.mem_singleton]

theorem not_mem_idsOf_of_nodup (hd : (candidates.map (·.node.id)).Nodup)
    {k : Fin candidates.length} (h : (l ++ [k]).Nodup) :
    l.Nodup ∧ (candidates.get k).node.id ∉ idsOf candidates l := by
  obtain ⟨hl, -, hk⟩ := List.nodup_append.mp h
  refine ⟨hl, fun hm => ?_⟩
  obtain ⟨j, hj, he⟩ := mem_idsOf.mp hm
  exact hk j hj k (List.mem_singleton.mpr rfl) (get_id_inj hd he)

section Loop

variable (hd : (candidates.map (·.node.id)).Nodup) (hl : l.Nodup) (cur : HashMap String ℤ)

include hd hl

/-- The selection loop adds the weight of each candidate once. -/
theorem lookup_foldl_accumulate (id : String) :
    AList.lookup id (l.foldl (accumulate candidates) (cur, none)).1 =
      if id ∈ idsOf candidates l then some ((cur.lookup id).getD 0 + weightAt candidates id)
      else cur.lookup id := by
  induction l using List.reverseRecOn generalizing id with
  | nil => simp [idsOf]
  | append_singleton l k ih =>
    obtain ⟨hl, hnew⟩ := not_mem_idsOf_of_nodup hd hl
    rw [List.foldl_append, List.foldl_cons, List.foldl_nil, accumulate]
    simp only [HashMap.lookup_insert_eq_ite, mem_idsOf_concat]
    by_cases he : id = (candidates.get k).node.id
    · rw [if_pos he, if_pos (.inr he), ih hl, if_neg hnew, he, weightAt_get hd]
    · rw [if_neg he, ih hl]
      simp only [he, or_false]

/-- The candidate the loop keeps has the highest sum. -/
theorem foldl_accumulate_best {i : Fin candidates.length} {top : ℤ}
    (h : (l.foldl (accumulate candidates) (cur, none)).2 = some (i, top)) :
    i ∈ l ∧ top = (cur.lookup (candidates.get i).node.id).getD 0 + weightOf (candidates.get i) ∧
      ∀ j ∈ l,
        (cur.lookup (candidates.get j).node.id).getD 0 + weightOf (candidates.get j) ≤ top := by
  induction l using List.reverseRecOn generalizing i top with
  | nil => simp at h
  | append_singleton l k ih =>
    obtain ⟨hl, hnew⟩ := not_mem_idsOf_of_nodup hd hl
    have hcur := lookup_foldl_accumulate hd hl cur (candidates.get k).node.id
    rw [if_neg hnew] at hcur
    rw [List.foldl_append, List.foldl_cons, List.foldl_nil, accumulate] at h
    simp only [hcur] at h
    split at h
    · -- The first candidate of the loop.
      rename_i hnone
      obtain ⟨rfl, rfl⟩ := Prod.mk.inj (Option.some.inj h)
      rcases accumulate_best l (cur, none) with ⟨rfl, _⟩ | ⟨_, _, _, hsome⟩
      · simp
      · rw [hnone] at hsome
        cases hsome
    · rename_i j top' hsome
      obtain ⟨hj, htop, hmax⟩ := ih hl hsome
      split_ifs at h with hgt
      · obtain ⟨rfl, rfl⟩ := Prod.mk.inj (Option.some.inj h)
        refine ⟨by simp, rfl, ?_⟩
        intro j' hj'
        rcases List.mem_append.mp hj' with hj' | hj'
        · exact (hmax j' hj').trans hgt.le
        · rw [List.mem_singleton.mp hj']
      · obtain ⟨rfl, rfl⟩ := Prod.mk.inj (Option.some.inj h)
        refine ⟨List.mem_append_left _ hj, htop, ?_⟩
        intro j' hj'
        rcases List.mem_append.mp hj' with hj' | hj'
        · exact hmax j' hj'
        · rw [List.mem_singleton.mp hj']
          exact not_lt.mp hgt

end Loop

theorem nodup_eligible : (b.eligible candidates tried now).Nodup := by
  have hfin : (untried candidates tried).Nodup := (List.nodup_finRange _).filter _
  exact ((hfin.filter _).sublist (List.filterOrAll_sublist _ _)).sublist
    (List.filterOrAll_sublist _ _)

/-- The ids among which a pick rotates. -/
def turnSet (b : Balancer) (candidates : List Backend) (tried : List String) (now : Instant) :
    Finset String :=
  (idsOf candidates (b.eligible candidates tried now)).toFinset

theorem sum_turnSet (hd : (candidates.map (·.node.id)).Nodup) :
    ∑ id ∈ b.turnSet candidates tried now, weightAt candidates id =
      ((b.eligible candidates tried now).map fun i => weightOf (candidates.get i)).sum := by
  rw [turnSet, List.sum_toFinset _ (nodup_idsOf hd nodup_eligible), idsOf, List.map_map]
  congr 1
  exact List.map_congr_left fun i _ => weightAt_get hd i

theorem mem_turnSet {id : String} :
    id ∈ b.turnSet candidates tried now ↔
      id ∈ idsOf candidates (b.eligible candidates tried now) := by
  simp [turnSet]

/-- A pick that chooses is a turn of the rotation, paid by the chosen node. -/
theorem pick_turn (hd : (candidates.map (·.node.id)).Nodup) {slot : String}
    (h : (b.pick candidates tried now).1 = .chosen i slot) :
    Rotation.Turn (b.turnSet candidates tried now) (weightAt candidates) b.value slot
        (b.pick candidates tried now).2.value ∧
      ∀ id, id ∈ (b.pick candidates tried now).2.current ↔
        id ∈ b.current ∨ id ∈ b.turnSet candidates tried now := by
  have hnodup : (b.eligible candidates tried now).Nodup := nodup_eligible
  have hsum : ∑ id ∈ b.turnSet candidates tried now, weightAt candidates id =
      ((b.eligible candidates tried now).map fun i => weightOf (candidates.get i)).sum :=
    sum_turnSet hd
  have hlookup := lookup_foldl_accumulate hd hnodup b.current
  unfold pick at h ⊢
  split_ifs at h ⊢
  dsimp only at h ⊢
  rcases hf : (b.eligible candidates tried now).foldl (accumulate candidates) (b.current, none)
    with ⟨cur, _ | ⟨j, top⟩⟩
  · rw [hf] at h
    cases h
  · rw [hf] at h
    cases h
    obtain ⟨hi, rfl, hmax⟩ := foldl_accumulate_best hd hnodup b.current (by rw [hf])
    have hiS : (candidates.get i).node.id ∈ idsOf candidates (b.eligible candidates tried now) :=
      mem_idsOf.mpr ⟨i, hi, rfl⟩
    simp only [hf] at hlookup ⊢
    constructor
    · refine ⟨mem_turnSet.mpr hiS, ?_, ?_⟩
      · intro id hid
        obtain ⟨k, hk, rfl⟩ := mem_idsOf.mp (mem_turnSet.mp hid)
        rw [weightAt_get hd, weightAt_get hd]
        exact hmax k hk
      · intro id
        rw [hsum]
        simp only [value, HashMap.lookup_modify, hlookup, mem_turnSet, if_pos hiS]
        by_cases hid : id = (candidates.get i).node.id
        · rw [if_pos hid, if_pos hid, hid, if_pos hiS]
          rfl
        · rw [if_neg hid, if_neg hid]
          split_ifs <;> simp
    · intro id
      rw [HashMap.mem_modify, ← AList.lookup_isSome, hlookup, mem_turnSet, ← AList.lookup_isSome]
      split_ifs with hid <;> simp [hid]

/-! ## Runs of calls -/

def step (b : Balancer) : BalancerAct → Balancer
  | .pick candidates tried now => (b.pick candidates tried now).2
  | .dropSlot id => b.dropSlot id
  | .retainNodes all => b.retainNodes all
  | .recordSuccess id => b.recordSuccess id
  | .recordFailure id now => (b.recordFailure id now).2

def run (b : Balancer) (acts : List BalancerAct) : Balancer := acts.foldl step b

def choice (b : Balancer) (candidates : List Backend) (tried : List String) (now : Instant) :
    Option String :=
  match (b.pick candidates tried now).1 with
  | .chosen i _ => some (candidates.get i).node.id
  | _ => none

/-- What the picks among the calls choose, in order. -/
def choices : Balancer → List BalancerAct → List (Option String)
  | _, [] => []
  | b, .pick candidates tried now :: acts =>
    b.choice candidates tried now :: choices (b.step (.pick candidates tried now)) acts
  | b, a :: acts => choices (b.step a) acts

theorem pick_outliers :
    (b.pick candidates tried now).2.outliers = b.outliers := by
  rcases b.pick_cases candidates tried now with ⟨_, h⟩ | ⟨_, _, h⟩ | ⟨_, _, _, h⟩ <;> rw [h]

theorem dropSlot_current (id : String) (b : Balancer) : (b.dropSlot id).current = b.current := by
  unfold dropSlot
  split
  · split_ifs <;> rfl
  · rfl

theorem recordFailure_current (id : String) (now : Instant) (b : Balancer) :
    (b.recordFailure id now).2.current = b.current := by
  unfold recordFailure
  dsimp only
  split_ifs <;> rfl

theorem value_retainNodes {all : List Backend} {id : String} (h : ∃ c ∈ all, c.node.id = id) :
    (b.retainNodes all).value id = b.value id := by
  have hany : (all.any fun c => c.node.id == id) = true := by simpa using h
  rw [value, value, retainNodes, HashMap.lookup_retain]
  simp only [hany]
  cases b.current.lookup id <;> rfl

/-! ## Proportional picks -/

/-- The candidates among which a proxy rotates when nothing else hinders: those that are not
drained, or all of them if every one is. -/
def rotating (candidates : List Backend) : List Backend := candidates.filterOrAll (·.weight > 0)

def totalWeight (candidates : List Backend) : ℤ := ((rotating candidates).map weightOf).sum

/-- A call that leaves the rotation among the candidates alone: a pick from them with none tried,
at its limit or ejected, a clean-up that keeps them all, or a call about slots and outliers. -/
def Unhindered (candidates : List Backend) (b : Balancer) : BalancerAct → Prop
  | .pick given tried now => given = candidates ∧ ∀ c ∈ candidates,
      c.node.id ∉ tried ∧ b.hasRoom c = true ∧ b.isEjected c.node.id now = false
  | .retainNodes all => ∀ c ∈ candidates, ∃ c' ∈ all, c'.node.id = c.node.id
  | _ => True

def UnhinderedRun (candidates : List Backend) : Balancer → List BalancerAct → Prop
  | _, [] => True
  | b, a :: acts => Unhindered candidates b a ∧ UnhinderedRun candidates (b.step a) acts

instance (candidates : List Backend) (b : Balancer) : DecidablePred (Unhindered candidates b)
  | .pick given tried now => inferInstanceAs (Decidable (given = candidates ∧ ∀ c ∈ candidates,
      c.node.id ∉ tried ∧ b.hasRoom c = true ∧ b.isEjected c.node.id now = false))
  | .retainNodes all =>
    inferInstanceAs (Decidable (∀ c ∈ candidates, ∃ c' ∈ all, c'.node.id = c.node.id))
  | .dropSlot _ | .recordSuccess _ | .recordFailure _ _ => .isTrue trivial

instance decidableUnhinderedRun (candidates : List Backend) :
    (b : Balancer) → DecidablePred (UnhinderedRun candidates b)
  | _, [] => .isTrue trivial
  | b, a :: acts =>
    have := decidableUnhinderedRun candidates (b.step a) acts
    inferInstanceAs (Decidable (_ ∧ _))

section Fixed

variable (hd : (candidates.map (·.node.id)).Nodup)

include hd

theorem weightAt_of_mem {c : Backend} (hc : c ∈ candidates) :
    weightAt candidates c.node.id = weightOf c := by
  obtain ⟨i, rfl⟩ := List.mem_iff_get.mp hc
  exact weightAt_get hd i

omit hd in
theorem turnSet_of_unhindered (h : Unhindered candidates b (.pick candidates tried now)) :
    b.turnSet candidates tried now = ((rotating candidates).map (·.node.id)).toFinset := by
  have huntried : untried candidates tried = List.finRange candidates.length := by
    refine List.filter_eq_self.mpr fun i _ => ?_
    simpa using (h.2 _ (candidates.get_mem i)).1
  have hopen : b.openSet candidates tried = List.finRange candidates.length := by
    rw [openSet, huntried]
    exact List.filter_eq_self.mpr fun i _ => (h.2 _ (candidates.get_mem i)).2.1
  have heligible : b.eligible candidates tried now =
      (List.finRange candidates.length).filterOrAll fun i => (candidates.get i).weight > 0 := by
    rw [eligible, undrained, hopen, failOpen, failOpen]
    refine List.filterOrAll_eq_self fun i _ => ?_
    rw [(h.2 _ (candidates.get_mem i)).2.2]
    rfl
  have hget : (List.finRange candidates.length).map candidates.get = candidates := by
    rw [← List.ofFn_eq_map, List.ofFn_get]
  have hmap := List.map_filterOrAll candidates.get (fun c => decide (c.weight > 0))
    (List.finRange candidates.length)
  rw [hget] at hmap
  rw [turnSet, heligible, rotating, ← hmap, List.map_map]
  rfl

theorem sum_rotating :
    ∑ id ∈ ((rotating candidates).map (·.node.id)).toFinset, weightAt candidates id =
      totalWeight candidates := by
  have hsub : (rotating candidates).Sublist candidates := List.filterOrAll_sublist _ _
  rw [List.sum_toFinset _ (hd.sublist (hsub.map _)), List.map_map, totalWeight]
  congr 1
  exact List.map_congr_left fun c hc => weightAt_of_mem hd (hsub.subset hc)

theorem value_step_of_unhindered {a : BalancerAct} (h : Unhindered candidates b a)
    (ha : ∀ tried now, a ≠ .pick candidates tried now) {c : Backend} (hc : c ∈ candidates) :
    (b.step a).value c.node.id = b.value c.node.id := by
  cases a with
  | pick given tried now =>
    obtain ⟨rfl, _⟩ := h
    exact absurd rfl (ha tried now)
  | dropSlot id => rw [step, value, dropSlot_current, value]
  | retainNodes all => exact value_retainNodes (h c hc)
  | recordSuccess id => rfl
  | recordFailure id now => rw [step, value, recordFailure_current, value]

omit hd in
theorem chosen_of_unhindered (hne : candidates ≠ [])
    (h : Unhindered candidates b (.pick candidates tried now)) :
    ∃ i, (b.pick candidates tried now).1 = .chosen i (candidates.get i).node.id := by
  obtain ⟨c, hc⟩ := List.exists_mem_of_ne_nil candidates hne
  rcases b.pick_cases candidates tried now with ⟨hu, _⟩ | ⟨_, ho, _⟩ | ⟨i, _, _, hp⟩
  · exact absurd (untried_eq_nil.mp hu c hc) (h.2 c hc).1
  · have hfull := openSet_eq_nil.mp ho c hc (h.2 c hc).1
    rw [(h.2 c hc).2.1] at hfull
    cases hfull
  · exact ⟨i, by rw [hp]⟩

theorem turns_of_unhindered (hne : candidates ≠ []) {x y : String → ℤ} {taken : List String}
    {acts : List BalancerAct}
    (ht : Rotation.Turns ((rotating candidates).map (·.node.id)).toFinset (weightAt candidates)
      x taken y)
    (hb : ∀ c ∈ candidates, b.value c.node.id = y c.node.id)
    (h : UnhinderedRun candidates b acts) :
    ∃ chosen z, choices b acts = chosen.map some ∧
      Rotation.Turns ((rotating candidates).map (·.node.id)).toFinset (weightAt candidates)
        x (taken ++ chosen) z ∧
      ∀ c ∈ candidates, (b.run acts).value c.node.id = z c.node.id := by
  induction acts generalizing b taken y with
  | nil => exact ⟨[], y, rfl, by rwa [List.append_nil], hb⟩
  | cons a acts ih =>
    obtain ⟨ha, hrest⟩ := h
    by_cases hpick : ∃ tried now, a = .pick candidates tried now
    · obtain ⟨tried, now, rfl⟩ := hpick
      obtain ⟨i, hi⟩ := chosen_of_unhindered hne ha
      obtain ⟨hturn, _⟩ := pick_turn hd hi
      rw [turnSet_of_unhindered ha] at hturn
      have hsub : ((rotating candidates).map (·.node.id)).toFinset ⊆
          (candidates.map (·.node.id)).toFinset := by
        intro id hid
        rw [List.mem_toFinset] at hid ⊢
        exact ((List.filterOrAll_sublist _ _).map _).subset hid
      have hagree : ∀ id ∈ (candidates.map (·.node.id)).toFinset, y id = b.value id := by
        intro id hid
        obtain ⟨c, hc, rfl⟩ := List.mem_map.mp (List.mem_toFinset.mp hid)
        exact (hb c hc).symm
      obtain ⟨z, hz, hzb⟩ := hturn.congr hsub hagree
      obtain ⟨chosen, z', hchoices, hturns, hz'⟩ := ih (ht.concat hz)
        (fun c hc => (hzb _ (List.mem_toFinset.mpr (List.mem_map_of_mem hc))).symm) hrest
      refine ⟨(candidates.get i).node.id :: chosen, z', ?_, ?_, hz'⟩
      · rw [choices, choice, hi, step, hchoices]
        rfl
      · rwa [List.append_assoc] at hturns
    · have hno : ∀ tried now, a ≠ .pick candidates tried now :=
        fun tried now he => hpick ⟨tried, now, he⟩
      have hsame : ∀ c ∈ candidates, (b.step a).value c.node.id = y c.node.id := by
        intro c hc
        rw [value_step_of_unhindered hd ha hno hc, hb c hc]
      obtain ⟨chosen, z, hchoices, hturns, hz⟩ := ih ht hsame hrest
      refine ⟨chosen, z, ?_, hturns, hz⟩
      rw [← hchoices]
      cases a with
      | pick given tried now =>
        obtain ⟨rfl, _⟩ := ha
        exact absurd rfl (hno tried now)
      | _ => rfl

end Fixed

/-- Starting with running weights of zero, the picks from the same unhindered candidates choose
only rotating ones, none of them a full pick ahead of its share, and after whole rounds every one
has had exactly its share and every running weight is back at zero. -/
theorem picks_proportional {acts : List BalancerAct} (hne : candidates ≠ [])
    (hd : (candidates.map (·.node.id)).Nodup)
    (h0 : ∀ c ∈ candidates, b.current.lookup c.node.id = none ∨
      b.current.lookup c.node.id = some 0)
    (h : UnhinderedRun candidates b acts) :
    ∃ chosen : List String, choices b acts = chosen.map some ∧
      (∀ id ∈ chosen, ∃ c ∈ rotating candidates, c.node.id = id) ∧
      (∀ c ∈ candidates, c ∉ rotating candidates → c.node.id ∉ chosen) ∧
      (∀ c ∈ rotating candidates, chosen.count c.node.id * totalWeight candidates <
        chosen.length * weightOf c + totalWeight candidates) ∧
      ∀ k : ℕ, chosen.length = k * totalWeight candidates →
        (∀ c ∈ rotating candidates, (chosen.count c.node.id : ℤ) = k * weightOf c) ∧
        ∀ c ∈ candidates, (b.run acts).value c.node.id = 0 := by
  have hsub : rotating candidates ⊆ candidates := (List.filterOrAll_sublist _ _).subset
  have hzero : ∀ c ∈ candidates, b.value c.node.id = 0 := by
    intro c hc
    rw [value]
    rcases h0 c hc with h0 | h0 <;> rw [h0] <;> rfl
  obtain ⟨chosen, z, hchoices, ht, hz⟩ :=
    turns_of_unhindered hd hne Rotation.Turns.nil (fun c _ => rfl) h
  rw [List.nil_append] at ht
  have hmem : ∀ {c}, c ∈ rotating candidates →
      c.node.id ∈ ((rotating candidates).map (·.node.id)).toFinset :=
    fun hc => List.mem_toFinset.mpr (List.mem_map_of_mem hc)
  have hof : ∀ id ∈ ((rotating candidates).map (·.node.id)).toFinset,
      ∃ c ∈ rotating candidates, c.node.id = id := by
    intro id hid
    simpa using hid
  have hx : ∀ id ∈ ((rotating candidates).map (·.node.id)).toFinset, b.value id = 0 := by
    intro id hid
    obtain ⟨c, hc, rfl⟩ := hof id hid
    exact hzero c (hsub hc)
  have hw : ∀ id ∈ ((rotating candidates).map (·.node.id)).toFinset,
      0 < weightAt candidates id := by
    intro id hid
    obtain ⟨c, hc, rfl⟩ := hof id hid
    rw [weightAt_of_mem hd (hsub hc), weightOf]
    omega
  have hin : ∀ id ∈ chosen, ∃ c ∈ rotating candidates, c.node.id = id :=
    fun id hid => hof id (ht.mem hid)
  refine ⟨chosen, hchoices, hin, ?_, ?_, ?_⟩
  · intro c hc hout hid
    obtain ⟨c', hc', he⟩ := hin _ hid
    obtain rfl := List.inj_on_of_nodup_map hd (hsub hc') hc he
    exact hout hc'
  · intro c hc
    have hlt := ht.count_lt hx hw (hmem hc)
    rwa [sum_rotating hd, weightAt_of_mem hd (hsub hc)] at hlt
  · intro k hk
    rw [← sum_rotating hd] at hk
    constructor
    · intro c hc
      rw [(ht.round hx hw hk (hmem hc)).1, weightAt_of_mem hd (hsub hc)]
    · intro c hc
      rw [hz c hc]
      by_cases hr : c.node.id ∈ ((rotating candidates).map (·.node.id)).toFinset
      · exact (ht.round hx hw hk hr).2
      · rw [ht.outside hr, hzero c hc]

/-- Three backends that take one connection each, the last one drained. -/
def weighted : List Backend :=
  [{ Granted.single "a" with weight := 2 }, Granted.single "b",
    { Granted.single "c" with weight := 0 }]

/-- One round, each slot dropped before the next pick. -/
def weightedRound : List BalancerAct :=
  [.pick weighted [] 0, .dropSlot "a", .pick weighted [] 0, .dropSlot "b", .pick weighted [] 0]

theorem picks_proportional_weighted :
    choices new weightedRound = [some "a", some "b", some "a"] ∧
      ∀ c ∈ weighted, (new.run weightedRound).value c.node.id = 0 := by
  have hchoices : choices new weightedRound = ["a", "b", "a"].map some := by decide
  have hrun : UnhinderedRun weighted new weightedRound := by decide
  refine ⟨hchoices, ?_⟩
  obtain ⟨chosen, hc, _, _, _, hround⟩ :=
    picks_proportional (by decide) (by decide) (by decide) hrun
  rw [hchoices] at hc
  obtain rfl := List.map_injective_iff.mpr (Option.some_injective _) hc
  exact (hround 1 (by decide)).2

/-! ## Bounded running weights -/

def system : Transition Balancer BalancerAct :=
  Transition.ofNext (· = new) fun b a => some (b.step a)

def PicksUpTo (w : ℕ) : BalancerAct → Prop
  | .pick candidates _ _ =>
    (candidates.map (·.node.id)).Nodup ∧ ∀ c ∈ candidates, c.weight.toNat ≤ w
  | _ => True

/-- A call after which `current` holds at most `n` node ids. -/
def Confined (n w : ℕ) (_ : Balancer) (a : BalancerAct) (t : Balancer) : Prop :=
  PicksUpTo w a ∧ t.current.keys.length ≤ n

/-- What `current` holds in the course of a call, from before the first iteration of the selection
loop to the end. -/
def contents (b : Balancer) : BalancerAct → List (HashMap String ℤ)
  | .pick candidates tried now =>
    ((b.eligible candidates tried now).scanl (accumulate candidates) (b.current, none)).map (·.1) ++
      [(b.pick candidates tried now).2.current]
  | a => [b.current, (b.step a).current]

/-- The results of the additions and subtractions of a call: the partial sums of `total`, and the
running weights, each of which is stored. -/
def results (b : Balancer) (a : BalancerAct) : List ℤ :=
  (match a with
    | .pick candidates tried now =>
      ((b.eligible candidates tried now).map fun i => weightOf (candidates.get i)).scanl (· + ·) 0
    | _ => []) ++ (b.contents a).flatMap HashMap.values

def keySet (b : Balancer) : Finset String := b.current.keys.toFinset

theorem mem_keySet {id : String} : id ∈ b.keySet ↔ id ∈ b.current := by
  rw [keySet, List.mem_toFinset, AList.mem_keys]

theorem card_keySet : b.keySet.card = b.current.keys.length :=
  List.toFinset_card_of_nodup b.current.nodupKeys

theorem value_eq_zero {id : String} (h : id ∉ b.current) : b.value id = 0 := by
  rw [value, AList.lookup_eq_none.mpr h]
  rfl

/-- The running weights are those of at most `n` nodes with weights up to `w`. -/
structure Settled (n w : ℕ) (b : Balancer) : Prop where
  card_le : b.keySet.card ≤ n
  bounded : Rotation.Bounded n w b.keySet b.value

variable {n w : ℕ} {b' : Balancer} {a : BalancerAct}

theorem settled_new : Settled n w new :=
  ⟨Nat.zero_le n, Rotation.bounded_empty n w new.value⟩

theorem Settled.of_current (h : Settled n w b) (he : b'.current = b.current) :
    Settled n w b' := by
  have hkeys : b'.keySet = b.keySet := by rw [keySet, keySet, he]
  have hvalue : b'.value = b.value := by
    ext id
    rw [value, value, he]
  exact ⟨hkeys ▸ h.card_le, hkeys ▸ hvalue ▸ h.bounded⟩

theorem Settled.retainNodes (h : Settled n w b) (all : List Backend) :
    Settled n w (b.retainNodes all) := by
  have hlookup : ∀ id, (b.retainNodes all).current.lookup id =
      (b.current.lookup id).filter fun _ => all.any (·.node.id == id) :=
    HashMap.lookup_retain _ _
  have hsub : (b.retainNodes all).keySet ⊆ b.keySet := by
    intro id hid
    rw [mem_keySet, ← AList.lookup_isSome, hlookup, Option.isSome_iff_exists] at hid
    obtain ⟨v, hv⟩ := hid
    rw [mem_keySet, ← AList.lookup_isSome, (Option.filter_eq_some_iff.mp hv).1]
    rfl
  constructor
  · exact (Finset.card_le_card hsub).trans h.card_le
  · refine (h.bounded.mono hsub).congr fun id hid => ?_
    rw [mem_keySet, ← AList.lookup_isSome, Option.isSome_iff_exists] at hid
    obtain ⟨v, hv⟩ := hid
    rw [value, value, hv]
    rw [hlookup] at hv
    rw [(Option.filter_eq_some_iff.mp hv).1]

theorem weightAt_mem_turnSet (hw : 1 ≤ w) (ha : PicksUpTo w (.pick candidates tried now))
    {id : String} (hid : id ∈ b.turnSet candidates tried now) :
    0 ≤ weightAt candidates id ∧ weightAt candidates id ≤ w := by
  obtain ⟨i, _, rfl⟩ := mem_idsOf.mp (mem_turnSet.mp hid)
  have hle := ha.2 _ (candidates.get_mem i)
  rw [weightAt_get ha.1, weightOf]
  omega

theorem Settled.pick (hw : 1 ≤ w) (h : Settled n w b)
    (ha : PicksUpTo w (.pick candidates tried now))
    (hn : (b.pick candidates tried now).2.current.keys.length ≤ n) :
    Settled n w (b.pick candidates tried now).2 := by
  cases hp : (b.pick candidates tried now).1 with
  | allTried => rwa [pick_unchanged (.inl hp)]
  | atCapacity => rwa [pick_unchanged (.inr hp)]
  | chosen i slot =>
    obtain ⟨hturn, hkeys⟩ := pick_turn ha.1 hp
    have hcard : (b.pick candidates tried now).2.keySet.card ≤ n := by rwa [card_keySet]
    have hmem : ∀ id, id ∈ (b.pick candidates tried now).2.keySet ↔
        id ∈ b.keySet ∨ id ∈ b.turnSet candidates tried now := by
      intro id
      rw [mem_keySet, mem_keySet, hkeys]
    refine ⟨hcard, ?_⟩
    have hext := h.bounded.extend (Int.natCast_nonneg w) hcard fun id hid =>
      value_eq_zero fun hb => (Finset.mem_sdiff.mp hid).2 (mem_keySet.mpr hb)
    exact hext.turn hturn (fun id hid => (hmem id).mpr (.inr hid)) hcard
      fun id hid => weightAt_mem_turnSet hw ha hid

theorem Settled.step (hw : 1 ≤ w) (h : Settled n w b) (ha : PicksUpTo w a)
    (hn : (b.step a).current.keys.length ≤ n) : Settled n w (b.step a) := by
  cases a with
  | pick candidates tried now => exact h.pick hw ha hn
  | dropSlot id => exact h.of_current (dropSlot_current id b)
  | retainNodes all => exact h.retainNodes all
  | recordSuccess id => exact h.of_current rfl
  | recordFailure id now => exact h.of_current (recordFailure_current id now b)

theorem settled_of_reachable {w' : ℕ} (hw : 1 ≤ w') (hle : ∀ a, PicksUpTo w a → PicksUpTo w' a)
    (h : (system.restrict (Confined n w)).Reachable b) : Settled n w' b := by
  refine h.invariant (I := Settled n w') ?_ ?_
  · rintro b rfl
    exact settled_new
  · rintro b a b' hb ⟨hstep, ha, hn⟩
    obtain rfl := Option.some.inj hstep
    exact hb.step hw (hle a ha) hn

theorem turnSet_subset (hd : (candidates.map (·.node.id)).Nodup) :
    b.turnSet candidates tried now ⊆ (b.pick candidates tried now).2.keySet := by
  intro id hid
  rcases b.pick_cases candidates tried now with ⟨hu, _⟩ | ⟨_, ho, _⟩ | ⟨i, _, _, hp⟩
  · have he : b.eligible candidates tried now = [] := by
      rw [eligible_eq_nil, openSet, hu]
      rfl
    rw [mem_turnSet, he] at hid
    cases hid
  · rw [mem_turnSet, eligible_eq_nil.mpr ho] at hid
    cases hid
  · have hchosen : (b.pick candidates tried now).1 = .chosen i (candidates.get i).node.id := by
      rw [hp]
    obtain ⟨_, hkeys⟩ := pick_turn hd hchosen
    exact mem_keySet.mpr ((hkeys id).mpr (.inr hid))

theorem Settled.value_le (h : Settled n w b) (hn : 1 ≤ n) (id : String) :
    -((n ^ 2 - 1) * w : ℤ) ≤ b.value id ∧ b.value id ≤ (n ^ 2 - 1) * w := by
  by_cases hid : id ∈ b.current
  · have hv := h.bounded.value (mem_keySet.mpr hid)
    constructor
    · linarith [hv.1]
    · exact hv.2
  · have hnonneg : (0 : ℤ) ≤ (n ^ 2 - 1) * w := by
      have hn : (1 : ℤ) ≤ n := by exact_mod_cast hn
      have : (0 : ℤ) ≤ n ^ 2 - 1 := by nlinarith
      positivity
    rw [value_eq_zero hid]
    constructor <;> linarith

theorem Settled.lookup_le (h : Settled n w b) {id : String} {v : ℤ}
    (hv : b.current.lookup id = some v) : -(n * n * w : ℤ) ≤ v ∧ v ≤ n * n * w := by
  have hmem : id ∈ b.keySet := by
    rw [mem_keySet, ← AList.lookup_isSome, hv]
    rfl
  have hn : 1 ≤ n := (Finset.card_pos.mpr ⟨id, hmem⟩).trans_le h.card_le
  have hle := h.value_le hn id
  rw [value, hv, Option.getD_some] at hle
  constructor <;> nlinarith

/-- Before the chosen node has paid, an eligible node is ahead by its weight. -/
theorem Settled.foldl_le (hw : 1 ≤ w) (h : Settled n w b)
    (ha : PicksUpTo w (.pick candidates tried now))
    (hn : (b.pick candidates tried now).2.current.keys.length ≤ n) {k : ℕ} {id : String} {v : ℤ}
    (hv : AList.lookup id (((b.eligible candidates tried now).take k).foldl
      (accumulate candidates) (b.current, none)).1 = some v) :
    -(n * n * w : ℤ) ≤ v ∧ v ≤ n * n * w := by
  have hnodup : ((b.eligible candidates tried now).take k).Nodup :=
    nodup_eligible.sublist (List.take_sublist k _)
  rw [lookup_foldl_accumulate ha.1 hnodup] at hv
  split_ifs at hv with hid
  · have hturn : id ∈ b.turnSet candidates tried now := by
      obtain ⟨i, hi, rfl⟩ := mem_idsOf.mp hid
      exact mem_turnSet.mpr (mem_idsOf.mpr ⟨i, List.mem_of_mem_take hi, rfl⟩)
    have hpos : 1 ≤ n := by
      rw [← card_keySet] at hn
      exact (Finset.card_pos.mpr ⟨id, turnSet_subset ha.1 hturn⟩).trans_le hn
    have hle := h.value_le hpos id
    have hweight := weightAt_mem_turnSet hw ha hturn
    rw [value] at hle
    obtain rfl := Option.some.inj hv
    constructor <;> nlinarith
  · exact h.lookup_le hv

theorem Settled.contents_le (hw : 1 ≤ w) (h : Settled n w b) (ha : PicksUpTo w a)
    (hn : (b.step a).current.keys.length ≤ n) {m : HashMap String ℤ} (hm : m ∈ b.contents a)
    {v : ℤ} (hv : v ∈ HashMap.values m) : -(n * n * w : ℤ) ≤ v ∧ v ≤ n * n * w := by
  obtain ⟨id, hv⟩ := HashMap.mem_values.mp hv
  by_cases hend : m = (b.step a).current
  · exact (h.step hw ha hn).lookup_le (hend ▸ hv)
  · cases a with
    | pick candidates tried now =>
      rcases List.mem_append.mp hm with hm | hm
      · obtain ⟨acc, hacc, rfl⟩ := List.mem_map.mp hm
        obtain ⟨k, rfl⟩ := List.exists_take_of_mem_scanl hacc
        exact h.foldl_le hw ha hn hv
      · exact absurd (List.mem_singleton.mp hm) hend
    | _ =>
      rcases List.mem_pair.mp hm with rfl | hm
      · exact h.lookup_le hv
      · exact absurd hm hend

/-- The weights of the eligible candidates add up to at most one weight for each key. -/
theorem total_le (hw : 1 ≤ w) (ha : PicksUpTo w (.pick candidates tried now))
    (hn : (b.pick candidates tried now).2.current.keys.length ≤ n) {v : ℤ}
    (hv : v ∈ ((b.eligible candidates tried now).map fun i => weightOf (candidates.get i)).scanl
      (· + ·) 0) : 0 ≤ v ∧ v ≤ n * w := by
  obtain ⟨k, rfl⟩ := List.exists_take_of_mem_scanl hv
  rw [← List.sum_eq_foldl]
  have hweight : ∀ x ∈ (((b.eligible candidates tried now).map fun i =>
      weightOf (candidates.get i)).take k), 0 ≤ x ∧ x ≤ w := by
    intro x hx
    obtain ⟨i, _, rfl⟩ := List.mem_map.mp (List.mem_of_mem_take hx)
    have hle := ha.2 _ (candidates.get_mem i)
    rw [weightOf]
    omega
  have hlen : (((b.eligible candidates tried now).map fun i =>
      weightOf (candidates.get i)).take k).length ≤ n := by
    have hcard : (b.eligible candidates tried now).length =
        (b.turnSet candidates tried now).card := by
      rw [turnSet, List.toFinset_card_of_nodup (nodup_idsOf ha.1 nodup_eligible), idsOf,
        List.length_map]
    have hsub : b.turnSet candidates tried now ⊆ (b.pick candidates tried now).2.keySet :=
      turnSet_subset ha.1
    have hle := Finset.card_le_card hsub
    rw [← hcard, card_keySet] at hle
    rw [List.length_take, List.length_map]
    omega
  constructor
  · exact List.sum_nonneg fun x hx => (hweight x hx).1
  · have hsum := List.sum_le_card_nsmul _ (w : ℤ) fun x hx => (hweight x hx).2
    rw [nsmul_eq_mul] at hsum
    have hmul := mul_le_mul_of_nonneg_right (Int.ofNat_le.mpr hlen) (Int.natCast_nonneg w)
    exact hsum.trans hmul

/-- Whatever the picks are from, the running weights of at most `n` nodes with weights up to `w`
never leave the bound, also before the chosen node has paid back the total; and for up to `2 ^ 14`
nodes no addition or subtraction leaves the range of `i64`. -/
theorem running_weights_bounded (hw : 1 ≤ w)
    (h : (system.restrict (Confined n w)).Reachable b) (ha : Confined n w b a (b.step a)) :
    (∀ m ∈ b.contents a, ∀ v ∈ HashMap.values m,
      -(3 * n * n * w : ℤ) ≤ v ∧ v ≤ 3 * n * n * w) ∧
    (n ≤ 2 ^ 14 → ∀ v ∈ b.results a, -2 ^ 63 ≤ v ∧ v < 2 ^ 63) := by
  obtain ⟨hpick, hkeys⟩ := ha
  constructor
  · intro m hm v hv
    have hs := settled_of_reachable hw (fun _ ha => ha) h
    have hle := hs.contents_le hw hpick hkeys hm hv
    have hnonneg : (0 : ℤ) ≤ n * n * w := by positivity
    constructor <;> linarith
  · intro hn v hv
    -- The weights are `u32`, whatever bound the run was given.
    have hmax : ∀ a, PicksUpTo w a → PicksUpTo (2 ^ 32 - 1) a := by
      rintro (⟨candidates, tried, now⟩ | _ | _ | _ | _) ha
      · exact ⟨ha.1, fun c _ => Nat.le_sub_one_of_lt c.weight.toNat_lt⟩
      all_goals trivial
    have hs := settled_of_reachable (by norm_num) hmax h
    have hsq : (n * n : ℤ) ≤ 2 ^ 28 := by
      have hn : (n : ℤ) ≤ 2 ^ 14 := by exact_mod_cast hn
      nlinarith
    rcases List.mem_append.mp hv with hv | hv
    · cases a with
      | pick candidates tried now =>
        have hle := total_le (by norm_num) (hmax _ hpick) hkeys hv
        have hn : (n : ℤ) ≤ 2 ^ 14 := by exact_mod_cast hn
        push_cast at hle
        constructor <;> nlinarith
      | _ => cases hv
    · obtain ⟨m, hm, hv⟩ := List.mem_flatMap.mp hv
      have hle := hs.contents_le (by norm_num) (hmax a hpick) hkeys hm hv
      push_cast at hle
      constructor <;> nlinarith

def oncePicked : Balancer := (new.pick weighted [] 0).2

theorem running_weights_bounded_oncePicked :
    (system.restrict (Confined 2 2)).Reachable oncePicked ∧
      (∀ m ∈ oncePicked.contents (.pick weighted ["a"] 1), ∀ v ∈ HashMap.values m,
        -24 ≤ v ∧ v ≤ 24) ∧
      ∀ v ∈ oncePicked.results (.pick weighted ["a"] 1), -2 ^ 63 ≤ v ∧ v < 2 ^ 63 := by
  have hr : (system.restrict (Confined 2 2)).Reachable oncePicked :=
    Transition.Reachable.snoc (a := .pick weighted [] 0) (.of_init rfl)
      ⟨rfl, ⟨by decide, by decide⟩, by decide⟩
  obtain ⟨hbound, hrange⟩ := running_weights_bounded (a := .pick weighted ["a"] 1) (by decide) hr
    ⟨⟨by decide, by decide⟩, by decide⟩
  exact ⟨hr, fun m hm v hv => by simpa using hbound m hm v hv, hrange (by decide)⟩

end Balancer

end Stouter
