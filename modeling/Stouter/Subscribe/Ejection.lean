import Stouter.Subscribe.RoundRobin

/-! # Outlier ejection

Whether a node is ejected is a function of the calls made so far and of what
`record_failure` returned in them. Histories list the latest call first, so
that "since the last success" is a matter of where the reading stops.
-/

namespace Stouter

/-- A call with what `record_failure` returned; nothing for other calls. -/
structure BalancerEvent where
  act : BalancerAct
  ejection : Option Duration

namespace Balancer

def after (past : List BalancerAct) : Balancer := past.foldr (fun a b => b.step a) new

def ejectionBy (b : Balancer) : BalancerAct → Option Duration
  | .recordFailure id now => (b.recordFailure id now).1
  | _ => none

def events : List BalancerAct → List BalancerEvent
  | [] => []
  | a :: past => ⟨a, (after past).ejectionBy a⟩ :: events past

/-! ## The rule -/

section Rule

variable (x : String)

/-- The ejections of a node since its last success: when each began and how long it was for. -/
def ejections : List BalancerEvent → List (Instant × Duration)
  | [] => []
  | ⟨.recordSuccess id, _⟩ :: past => if id = x then [] else ejections past
  | ⟨.recordFailure id t, some d⟩ :: past =>
    if id = x then (t, d) :: ejections past else ejections past
  | _ :: past => ejections past

/-- An ejection since the last success covers the time. -/
def EjectedAt (past : List BalancerEvent) (t : Instant) : Prop :=
  ∃ e ∈ ejections x past, e.1 ≤ t ∧ t < e.1 + e.2

instance (past : List BalancerEvent) (t : Instant) : Decidable (EjectedAt x past t) :=
  inferInstanceAs (Decidable (∃ e ∈ ejections x past, e.1 ≤ t ∧ t < e.1 + e.2))

/-- The failures of a node since its last success or ejection, less those while it was ejected. -/
def countedFailures : List BalancerEvent → ℕ
  | [] => 0
  | ⟨.recordSuccess id, _⟩ :: past => if id = x then 0 else countedFailures past
  | ⟨.recordFailure id _, some _⟩ :: past => if id = x then 0 else countedFailures past
  | ⟨.recordFailure id t, none⟩ :: past =>
    if id = x ∧ ¬EjectedAt x past t then countedFailures past + 1 else countedFailures past
  | _ :: past => countedFailures past

/-- The ejection a failure at this time causes: the third counted one ejects the node, for twice
as long as the one before, up to a limit. -/
def ejectionDue (past : List BalancerEvent) (t : Instant) : Option Duration :=
  if ¬EjectedAt x past t ∧ countedFailures x past + 1 = 3 then
    some (min (.fromSecs 10 * 2 ^ (ejections x past).length) (.fromSecs 120))
  else none

end Rule

def timeOf : BalancerAct → Option Instant
  | .pick _ _ now => some now
  | .recordFailure _ now => some now
  | _ => none

def Retains (x : String) : BalancerAct → Prop
  | .retainNodes all => ∃ c ∈ all, c.node.id = x
  | _ => True

def ejects (x : String) : BalancerEvent → Bool
  | ⟨.recordFailure id _, some _⟩ => id = x
  | _ => false

/-- Non-decreasing times, no call that forgets the node, and a number of ejections that fits its
counter. -/
structure Regular (x : String) (past : List BalancerAct) : Prop where
  sorted : (past.filterMap timeOf).Pairwise (· ≥ ·)
  retained : ∀ a ∈ past, Retains x a
  few : (events past).countP (ejects x) < 2 ^ 32

def Until (past : List BalancerAct) (t : Instant) : Prop := ∀ t' ∈ past.filterMap timeOf, t' ≤ t

/-! ## What the calls store -/

/-- What is stored about a node, or what it would start with. -/
def stored (b : Balancer) (x : String) : OutlierState := (b.outliers.lookup x).getD .default

variable {b : Balancer} {x : String} {t : Instant} {a : BalancerAct} {past : List BalancerAct}

theorem isEjected_stored : b.isEjected x t = (b.stored x).isEjected t := by
  rw [isEjected, stored]
  cases b.outliers.lookup x <;> rfl

theorem recordFailure_cases (b : Balancer) (x : String) (t : Instant) :
    ((b.stored x).isEjected t = true ∧
      b.recordFailure x t = (none, { b with outliers := b.outliers.insert x (b.stored x) })) ∨
    ((b.stored x).isEjected t = false ∧
      (b.stored x).consecutiveFailures + 1 < ejectAfterFailures ∧
      b.recordFailure x t = (none, { b with outliers := b.outliers.insert x { b.stored x with
        consecutiveFailures := (b.stored x).consecutiveFailures + 1 } })) ∨
    ((b.stored x).isEjected t = false ∧
      ¬(b.stored x).consecutiveFailures + 1 < ejectAfterFailures ∧
      ∃ d, d = min (baseEjection * 2 ^ min ((b.stored x).ejections + 1 - 1).toNat 16)
          maxEjection ∧
        b.recordFailure x t = (some d, { b with
          outliers := b.outliers.insert x ⟨0, (b.stored x).ejections + 1, some (t + d)⟩ })) := by
  unfold recordFailure
  rw [← stored]
  dsimp only
  split_ifs with he hf
  · exact .inl ⟨he, rfl⟩
  · exact .inr (.inl ⟨Bool.eq_false_of_not_eq_true he, hf, rfl⟩)
  · exact .inr (.inr ⟨Bool.eq_false_of_not_eq_true he, hf, _, rfl, rfl⟩)

def About (x : String) : BalancerAct → Prop
  | .recordSuccess id => id = x
  | .recordFailure id _ => id = x
  | _ => False

theorem lookup_step_of_not_about (ha : ¬About x a) (hr : Retains x a) :
    (b.step a).outliers.lookup x = b.outliers.lookup x := by
  cases a with
  | pick candidates tried now => rw [step, pick_outliers]
  | dropSlot id =>
    rw [step, dropSlot]
    split
    · split_ifs <;> rfl
    · rfl
  | retainNodes all =>
    obtain ⟨c, hc, rfl⟩ := hr
    have hany : (all.any fun c' => c'.node.id == c.node.id) = true :=
      List.any_eq_true.mpr ⟨c, hc, by simp⟩
    rw [step, retainNodes, HashMap.lookup_retain]
    simp only [hany]
    cases b.outliers.lookup c.node.id <;> rfl
  | recordSuccess id =>
    have hne : x ≠ id := fun h => ha h.symm
    rw [step, recordSuccess, HashMap.lookup_modify, if_neg hne]
  | recordFailure id now =>
    have hne : x ≠ id := fun h => ha h.symm
    rw [step]
    rcases b.recordFailure_cases id now with ⟨_, h⟩ | ⟨_, _, h⟩ | ⟨_, _, _, _, h⟩ <;>
      rw [h] <;> exact AList.lookup_insert_ne hne

theorem stored_recordSuccess : (b.recordSuccess x).stored x = .default := by
  rw [stored, recordSuccess, HashMap.lookup_modify, if_pos rfl]
  cases b.outliers.lookup x <;> rfl

/-! ## The stored state follows the rule -/

/-- What is stored about a node says the same as the events. -/
structure Mirrors (x : String) (o : OutlierState) (past : List BalancerEvent) : Prop where
  failures : o.consecutiveFailures.toNat = countedFailures x past
  failures_lt : countedFailures x past < 3
  count : o.ejections.toNat = (ejections x past).length
  covered : ∀ e ∈ ejections x past, ∃ u, o.ejectedUntil = some u ∧ e.1 + e.2 ≤ u
  attained : ∀ u, o.ejectedUntil = some u → ∃ e ∈ ejections x past, e.1 + e.2 = u

variable {o : OutlierState} {evs : List BalancerEvent}

theorem mirrors_default : Mirrors x .default [] := by
  constructor
  · rfl
  · exact Nat.zero_lt_succ 2
  · rfl
  · intro e he
    cases he
  · intro u hu
    cases hu

/-- From the last ejection on, the stored end decides. -/
theorem Mirrors.isEjected_iff (h : Mirrors x o evs) (ht : ∀ e ∈ ejections x evs, e.1 ≤ t) :
    o.isEjected t = true ↔ EjectedAt x evs t := by
  simp only [OutlierState.isEjected, Option.any_eq_true, decide_eq_true_eq]
  constructor
  · rintro ⟨u, hu, hlt⟩
    obtain ⟨e, he, rfl⟩ := h.attained u hu
    exact ⟨e, he, ht e he, hlt⟩
  · rintro ⟨e, he, _, hlt⟩
    obtain ⟨u, hu, hle⟩ := h.covered e he
    exact ⟨u, hu, hlt.trans_le hle⟩

theorem start_mem_times {e : Instant × Duration} (he : e ∈ ejections x (events past)) :
    e.1 ∈ past.filterMap timeOf := by
  induction past with
  | nil => cases he
  | cons a past ih =>
    have hold : e ∈ ejections x (events past) → e.1 ∈ (a :: past).filterMap timeOf := by
      intro h
      have hmem := ih h
      rw [List.filterMap_cons]
      split
      · exact hmem
      · exact List.mem_cons_of_mem _ hmem
    cases a with
    | recordSuccess id =>
      simp only [events, ejections] at he
      split_ifs at he with hid
      · cases he
      · exact hold he
    | recordFailure id now =>
      simp only [events] at he
      cases hr : (after past).ejectionBy (.recordFailure id now) with
      | none =>
        rw [hr] at he
        exact hold he
      | some d =>
        rw [hr] at he
        simp only [ejections] at he
        split_ifs at he with hid
        · rcases List.mem_cons.mp he with rfl | he
          · simp [timeOf]
          · exact hold he
        · exact hold he
    | _ => exact hold he

theorem length_ejections_le : (ejections x evs).length ≤ evs.countP (ejects x) := by
  induction evs with
  | nil => exact le_rfl
  | cons e evs ih =>
    have hle : evs.countP (ejects x) ≤ (e :: evs).countP (ejects x) :=
      (List.sublist_cons_self e evs).countP_le
    rcases e with ⟨_ | _ | _ | id | ⟨id, t⟩, _ | d⟩ <;> simp only [ejections]
    case recordSuccess.none | recordSuccess.some =>
      split_ifs
      · exact Nat.zero_le _
      · exact ih.trans hle
    case recordFailure.some =>
      split_ifs with hid
      · have hejects : ejects x ⟨.recordFailure id t, some d⟩ = true := by simpa [ejects] using hid
        rw [List.countP_cons_of_pos hejects, List.length_cons]
        exact Nat.succ_le_succ ih
      · exact ih.trans hle
    all_goals exact ih.trans hle

section Cons

variable {r : Option Duration} (ha : ¬About x a)

include ha

theorem ejections_cons_of_not_about (evs : List BalancerEvent) :
    ejections x (⟨a, r⟩ :: evs) = ejections x evs := by
  rcases a with _ | _ | _ | id | ⟨id, t⟩ <;> rcases r with _ | d <;> simp_all [ejections, About]

theorem countedFailures_cons_of_not_about (evs : List BalancerEvent) :
    countedFailures x (⟨a, r⟩ :: evs) = countedFailures x evs := by
  rcases a with _ | _ | _ | id | ⟨id, t⟩ <;> rcases r with _ | d <;>
    simp_all [countedFailures, About]

end Cons

/-- The clamp of the exponent is beyond the limit of the duration. -/
theorem backoff_eq (k : ℕ) :
    min (baseEjection * 2 ^ min k 16) maxEjection =
      min (Duration.fromSecs 10 * 2 ^ k) (.fromSecs 120) := by
  rcases Nat.le_total k 16 with hk | hk
  · rw [Nat.min_eq_left hk]
    rfl
  · have hpow : 2 ^ 16 ≤ 2 ^ k := Nat.pow_le_pow_right (by norm_num) hk
    rw [Nat.min_eq_right hk, baseEjection, maxEjection]
    unfold Duration.fromSecs
    rw [Nat.min_eq_right, Nat.min_eq_right] <;> omega

section Failure

variable (h : Mirrors x (b.stored x) evs) (ht : ∀ e ∈ ejections x evs, e.1 ≤ t)

include h

theorem Mirrors.third_iff :
    ¬(b.stored x).consecutiveFailures + 1 < ejectAfterFailures ↔
      countedFailures x evs + 1 = 3 := by
  have hlt := h.failures_lt
  rw [UInt32.lt_iff_toNat_lt, UInt32.toNat_add, h.failures]
  simp only [ejectAfterFailures, UInt32.reduceToNat]
  omega

include ht

/-- A failure ejects the node exactly when one is due. -/
theorem Mirrors.recordFailure_eq : (b.recordFailure x t).1 = ejectionDue x evs t := by
  have hejected := h.isEjected_iff ht
  have hthird := h.third_iff
  rw [ejectionDue]
  rcases b.recordFailure_cases x t with ⟨he, hr⟩ | ⟨he, hf, hr⟩ | ⟨he, hf, d, rfl, hr⟩
  · rw [hr, if_neg fun hc => hc.1 (hejected.mp he)]
  · rw [hr, if_neg fun hc => hthird.mpr hc.2 hf]
  · have hnot : ¬EjectedAt x evs t := by simp [← hejected, he]
    rw [hr, if_pos ⟨hnot, hthird.mp hf⟩, UInt32.add_sub_cancel, h.count, backoff_eq]

theorem Mirrors.recordFailure (hfew : (b.recordFailure x t).1.isSome = true →
      (ejections x evs).length + 1 < 2 ^ 32) :
    Mirrors x ((b.recordFailure x t).2.stored x)
      (⟨.recordFailure x t, (b.recordFailure x t).1⟩ :: evs) := by
  have hejected := h.isEjected_iff ht
  have hthird := h.third_iff
  rcases b.recordFailure_cases x t with ⟨he, hr⟩ | ⟨he, hf, hr⟩ | ⟨he, hf, d, _, hr⟩
  · rw [hr, stored, AList.lookup_insert, Option.getD_some]
    have hcounted : countedFailures x (⟨.recordFailure x t, none⟩ :: evs) =
        countedFailures x evs := by
      simp [countedFailures, hejected.mp he]
    exact ⟨by rw [hcounted, h.failures], by rw [hcounted]; exact h.failures_lt, h.count, h.covered,
      h.attained⟩
  · have hnot : ¬EjectedAt x evs t := by simp [← hejected, he]
    have hcounted : countedFailures x (⟨.recordFailure x t, none⟩ :: evs) =
        countedFailures x evs + 1 := by
      simp [countedFailures, hnot]
    have hlt : countedFailures x evs + 1 < 3 := by
      have := h.failures_lt
      have := mt hthird.mpr (not_not.mpr hf)
      omega
    rw [hr, stored, AList.lookup_insert, Option.getD_some]
    refine ⟨?_, by rwa [hcounted], h.count, h.covered, h.attained⟩
    rw [hcounted, UInt32.toNat_add, h.failures]
    simp only [UInt32.reduceToNat]
    omega
  · rw [hr] at hfew ⊢
    have hlist : ejections x (⟨.recordFailure x t, some d⟩ :: evs) =
        (t, d) :: ejections x evs := by
      simp [ejections]
    rw [stored, AList.lookup_insert, Option.getD_some]
    refine ⟨by simp [countedFailures], by simp [countedFailures], ?_, ?_, ?_⟩
    · have hlen := hfew rfl
      rw [hlist, List.length_cons, UInt32.toNat_add, h.count]
      simp only [UInt32.reduceToNat]
      omega
    · intro e hmem
      refine ⟨t + d, rfl, ?_⟩
      rw [hlist] at hmem
      rcases List.mem_cons.mp hmem with rfl | hmem
      · exact le_rfl
      · -- The node was not ejected any more, so the older ejections are over.
        have hnot : ¬EjectedAt x evs t := by simp [← hejected, he]
        have hover : e.1 + e.2 ≤ t := not_lt.mp fun hlt => hnot ⟨e, hmem, ht e hmem, hlt⟩
        exact hover.trans (Nat.le_add_right t d)
    · intro u hu
      obtain rfl := Option.some.inj hu
      rw [hlist]
      exact ⟨(t, d), List.mem_cons_self, rfl⟩

end Failure

theorem Regular.tail (h : Regular x (a :: past)) : Regular x past := by
  constructor
  · exact h.sorted.sublist ((List.sublist_cons_self a past).filterMap timeOf)
  · exact fun a' ha' => h.retained a' (List.mem_cons_of_mem a ha')
  · exact (List.sublist_cons_self _ (events past)).countP_le.trans_lt h.few

theorem Regular.until (h : Regular x (a :: past)) (ht : timeOf a = some t) : Until past t := by
  have hs := h.sorted
  rw [List.filterMap_cons_some ht] at hs
  exact (List.pairwise_cons.mp hs).1

theorem Until.started (h : Until past t) :
    ∀ e ∈ ejections x (events past), e.1 ≤ t :=
  fun _ he => h _ (start_mem_times he)

theorem mirrors_of_regular (h : Regular x past) :
    Mirrors x ((after past).stored x) (events past) := by
  induction past with
  | nil => exact mirrors_default
  | cons a past ih =>
    have hm := ih h.tail
    by_cases ha : About x a
    · cases a with
      | recordSuccess id =>
        obtain rfl : id = x := ha
        have hejections : ejections id (events (.recordSuccess id :: past)) = [] := by
          simp [events, ejections]
        have hcounted : countedFailures id (events (.recordSuccess id :: past)) = 0 := by
          simp [events, countedFailures]
        have hstored : (after (.recordSuccess id :: past)).stored id = .default :=
          stored_recordSuccess
        rw [hstored]
        refine ⟨by rw [hcounted]; rfl, by omega, by rw [hejections]; rfl, ?_, ?_⟩
        · intro e he
          rw [hejections] at he
          cases he
        · intro u hu
          cases hu
      | recordFailure id t =>
        obtain rfl : id = x := ha
        refine hm.recordFailure (h.until rfl).started fun hsome => ?_
        have hfew := h.few
        obtain ⟨d, hd⟩ := Option.isSome_iff_exists.mp hsome
        have hejects : ejects id ⟨.recordFailure id t, some d⟩ = true := by simp [ejects]
        rw [events, ejectionBy, hd, List.countP_cons_of_pos hejects] at hfew
        exact (Nat.succ_le_succ length_ejections_le).trans_lt hfew
      | _ => cases ha
    · have hstored : (after (a :: past)).stored x = (after past).stored x := by
        rw [stored, stored, after, List.foldr_cons,
          lookup_step_of_not_about ha (h.retained a List.mem_cons_self), after]
      have hcounted := countedFailures_cons_of_not_about (r := (after past).ejectionBy a) ha
        (events past)
      have hejections := ejections_cons_of_not_about (r := (after past).ejectionBy a) ha
        (events past)
      rw [hstored, events]
      exact ⟨by rw [hcounted, hm.failures], by rw [hcounted]; exact hm.failures_lt,
        by rw [hejections, hm.count], by rw [hejections]; exact hm.covered,
        by rw [hejections]; exact hm.attained⟩

/-- In every regular history a failure ejects the node exactly when it is the third counted one,
for the time due; the node is ejected at exactly the times of its ejections since the last success;
failures while it is ejected, picks and calls about other nodes change nothing about it, and the
stored number of failures stays below three. -/
theorem ejection_follows_rule (h : Regular x past) :
    (∀ t before, past = .recordFailure x t :: before →
      ((after before).recordFailure x t).1 = ejectionDue x (events before) t) ∧
    (∀ t, Until past t → ((after past).isEjected x t = true ↔ EjectedAt x (events past) t)) ∧
    (∀ t, (after past).isEjected x t = true →
      ((after past).recordFailure x t).2.outliers.lookup x = (after past).outliers.lookup x) ∧
    (∀ candidates tried now,
      ((after past).pick candidates tried now).2.outliers = (after past).outliers) ∧
    (∀ a, ¬About x a → Retains x a →
      ((after past).step a).outliers.lookup x = (after past).outliers.lookup x) ∧
    ∀ o, (after past).outliers.lookup x = some o → o.consecutiveFailures < 3 := by
  have hm := mirrors_of_regular h
  refine ⟨?_, ?_, ?_, fun _ _ _ => pick_outliers, fun _ => lookup_step_of_not_about, ?_⟩
  · rintro t before rfl
    exact (mirrors_of_regular h.tail).recordFailure_eq (h.until rfl).started
  · intro t ht
    rw [isEjected_stored]
    exact hm.isEjected_iff ht.started
  · intro t he
    cases ho : (after past).outliers.lookup x with
    | none =>
      rw [isEjected, ho] at he
      cases he
    | some o =>
      rw [isEjected_stored] at he
      rcases (after past).recordFailure_cases x t with ⟨_, hr⟩ | ⟨hf, _⟩ | ⟨hf, _⟩
      · rw [hr, stored, ho]
        exact AList.lookup_insert _
      · rw [he] at hf
        cases hf
      · rw [he] at hf
        cases hf
  · intro o ho
    have hlt := hm.failures_lt
    rw [← hm.failures, stored, ho, Option.getD_some] at hlt
    exact hlt

/-- Three failures in a row, the last one 2 ns after the first. -/
def thirdFailure : List BalancerAct :=
  [.recordFailure "a" 2, .recordFailure "a" 1, .recordFailure "a" 0]

theorem ejection_follows_rule_thirdFailure :
    Regular "a" thirdFailure ∧
      ((after thirdFailure.tail).recordFailure "a" 2).1 = some (.fromSecs 10) ∧
      (after thirdFailure).isEjected "a" 3 = true := by
  have hr : Regular "a" thirdFailure := by
    constructor
    · decide
    · simp [thirdFailure, Retains]
    · decide +kernel
  obtain ⟨hdue, hejected, _⟩ := ejection_follows_rule hr
  refine ⟨hr, ?_, ?_⟩
  · rw [hdue 2 thirdFailure.tail rfl]
    decide +kernel
  · have huntil : Until thirdFailure 3 := by
      unfold Until
      decide
    rw [hejected 3 huntil]
    decide +kernel

end Balancer

end Stouter
