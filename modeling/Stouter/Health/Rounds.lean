import Mathlib.Data.List.Induction
import Stouter.Subscribe.ServiceIndex

/-! # Health check rounds

In every round the checker probes the services its node hosts, in any order of
completion, and publishes a report when a flag says that the list of unhealthy
services has changed. The flags come from `record` and `retain`; they agree
with a comparison of the lists because each service is recorded once a round.
Histories list the latest round first.
-/

namespace Stouter

def unhealthyAfter : UInt32 := 2

/-- `u32::saturating_add(1)`. -/
def saturatingSucc (n : UInt32) : UInt32 := if n.toNat + 1 < 2 ^ 32 then n + 1 else n

/-- Health-check state machine for a set of services, independent of I/O. -/
structure HealthTracker where
  consecutiveFailures : HashMap String UInt32

namespace HealthTracker

def default : HealthTracker := ⟨∅⟩

/-- Record a probe result; true if the service's health flipped. -/
def record (service : String) (ok : Bool) (t : HealthTracker) : Bool × HealthTracker :=
  let failures := (t.consecutiveFailures.lookup service).getD 0
  let wasUnhealthy := decide (failures ≥ unhealthyAfter)
  let failures := if ok then 0 else saturatingSucc failures
  (wasUnhealthy != decide (failures ≥ unhealthyAfter),
    ⟨t.consecutiveFailures.insert service failures⟩)

/-- Sorted names of services currently considered unhealthy. -/
def unhealthy (t : HealthTracker) : List String :=
  ((t.consecutiveFailures.entries.filter fun e => e.2 ≥ unhealthyAfter).map
    (·.1)).insertionSort (· ≤ ·)

/-- Forget services no longer hosted here; true if an unhealthy one was dropped. -/
def retain (hosted : List String) (t : HealthTracker) : Bool × HealthTracker :=
  let before := t.unhealthy
  let t := ⟨HashMap.retain (fun s _ => hosted.contains s) t.consecutiveFailures⟩
  (before != t.unhealthy, t)

end HealthTracker

/-- Wall-clock milliseconds, forced above the previous version. -/
def nextVersion (nowMs prev : UInt64) : UInt64 :=
  if nowMs < prev + 1 then prev + 1 else nowMs

/-- One round: the names of the services hosted here, the probe results as they come in, and the
clock when a report is made. -/
structure Round where
  hosted : List String
  results : List (String × Bool)
  nowMs : UInt64
  nodup : hosted.Nodup
  probed : (results.map (·.1)).Perm hosted

/-- The state of `run_health_checks`, with the report it maintains. -/
structure HealthChecker where
  tracker : HealthTracker
  firstRound : Bool
  localHealth : ServiceHealth

namespace HealthChecker

def start : HealthChecker := ⟨.default, true, .default⟩

/-- One iteration of the loop over the probe results. -/
def collect (acc : Bool × HealthTracker) (r : String × Bool) : Bool × HealthTracker :=
  let (flipped, tracker) := acc.2.record r.1 r.2
  (acc.1 || flipped, tracker)

def round (s : HealthChecker) (r : Round) : Option ServiceHealth × HealthChecker :=
  let (dropped, tracker) := s.tracker.retain r.hosted
  -- `||` only takes the flag of the first round when nothing was dropped.
  let firstRound := if dropped then s.firstRound else false
  let (changed, tracker) := r.results.foldl collect (dropped || s.firstRound, tracker)
  if changed then
    let report := ⟨nextVersion r.nowMs s.localHealth.version, tracker.unhealthy⟩
    (some report, ⟨tracker, firstRound, report⟩)
  else (none, ⟨tracker, firstRound, s.localHealth⟩)

def after (past : List Round) : HealthChecker := past.foldr (fun r s => (s.round r).2) start

end HealthChecker

/-! ## What the reports should say -/

def Round.failed (r : Round) (name : String) : Bool := r.results.contains (name, false)

theorem Round.failed_iff {r : Round} {name : String} :
    r.failed name = true ↔ (name, false) ∈ r.results := by
  simp [Round.failed]

theorem Round.mem_hosted {r : Round} {name : String} :
    name ∈ r.hosted ↔ (name, true) ∈ r.results ∨ (name, false) ∈ r.results := by
  rw [← r.probed.mem_iff, List.mem_map]
  constructor
  · rintro ⟨⟨_, _ | _⟩, h, rfl⟩
    · exact .inr h
    · exact .inl h
  · rintro (h | h)
    · exact ⟨_, h, rfl⟩
    · exact ⟨_, h, rfl⟩

theorem Round.nodup_results (r : Round) : (r.results.map (·.1)).Nodup :=
  r.probed.nodup_iff.mpr r.nodup

theorem Round.not_failed {r : Round} {name : String} (h : (name, true) ∈ r.results) :
    (name, false) ∉ r.results := by
  intro h'
  have hsame := List.inj_on_of_nodup_map r.nodup_results h h' rfl
  cases hsame

/-- The services that failed in this round and in the one before, sorted. -/
def failingTwice (prev : Option Round) (r : Round) : List String :=
  (r.hosted.filter fun name => r.failed name && prev.any (·.failed name)).insertionSort (· ≤ ·)

/-! ## The tracker -/

namespace HealthTracker

variable {t t' : HealthTracker} {name service : String} {ok : Bool}

/-- The consecutive failures of a service, 0 if it has none on record. -/
def failures (t : HealthTracker) (name : String) : ℕ :=
  ((t.consecutiveFailures.lookup name).getD 0).toNat

theorem mem_unhealthy : name ∈ t.unhealthy ↔ 2 ≤ t.failures name := by
  rw [unhealthy, List.mem_insertionSort, List.mem_map, failures]
  constructor
  · rintro ⟨⟨_, f⟩, he, rfl⟩
    obtain ⟨hmem, hf⟩ := List.mem_filter.mp he
    rw [AList.mem_lookup_iff.mpr hmem]
    exact of_decide_eq_true hf
  · intro h
    cases hl : t.consecutiveFailures.lookup name with
    | none =>
      rw [hl] at h
      exact absurd h (by decide)
    | some f =>
      rw [hl] at h
      exact ⟨⟨name, f⟩, List.mem_filter.mpr ⟨AList.mem_lookup_iff.mp hl, decide_eq_true h⟩, rfl⟩

theorem nodup_unhealthy_names (t : HealthTracker) :
    ((t.consecutiveFailures.entries.filter fun e => e.2 ≥ unhealthyAfter).map (·.1)).Nodup :=
  List.Nodup.sublist (List.filter_sublist.map _) t.consecutiveFailures.nodupKeys

theorem unhealthy_eq_iff :
    t.unhealthy = t'.unhealthy ↔ ∀ name, 2 ≤ t.failures name ↔ 2 ≤ t'.failures name := by
  rw [unhealthy, unhealthy, List.insertionSort_eq_iff t.nodup_unhealthy_names
    t'.nodup_unhealthy_names]
  simp only [← mem_unhealthy, unhealthy, List.mem_insertionSort]

theorem failures_retain (hosted : List String) (name : String) :
    (t.retain hosted).2.failures name = if name ∈ hosted then t.failures name else 0 := by
  rw [failures, retain, HashMap.lookup_retain, failures]
  by_cases h : name ∈ hosted
  · rw [if_pos h]
    cases t.consecutiveFailures.lookup name <;> simp [h, Option.filter]
  · rw [if_neg h]
    cases t.consecutiveFailures.lookup name <;> simp [h, Option.filter]

theorem retain_fst (hosted : List String) :
    (t.retain hosted).1 = true ↔ t.unhealthy ≠ (t.retain hosted).2.unhealthy := by
  simp [retain]

theorem failures_record :
    (t.record service ok).2.failures name =
      if name = service then (if ok then 0 else min (t.failures service + 1) (2 ^ 32 - 1))
      else t.failures name := by
  rw [failures, record, HashMap.lookup_insert_eq_ite]
  by_cases h : name = service
  · rw [if_pos h, if_pos h, failures, Option.getD_some]
    cases ok with
    | true => rfl
    | false =>
      have hlt := ((t.consecutiveFailures.lookup service).getD 0).toNat_lt
      simp only [Bool.false_eq_true, if_false, saturatingSucc]
      split_ifs with hs
      · rw [UInt32.toNat_add]
        simp only [UInt32.reduceToNat]
        omega
      · omega
  · rw [if_neg h, if_neg h, failures]

theorem record_fst :
    (t.record service ok).1 = true ↔
      ¬(2 ≤ t.failures service ↔ 2 ≤ (t.record service ok).2.failures service) := by
  have hold : decide ((t.consecutiveFailures.lookup service).getD 0 ≥ unhealthyAfter) =
      decide (2 ≤ t.failures service) := rfl
  have hnew : (t.record service ok).2.failures service =
      (if ok then 0 else saturatingSucc ((t.consecutiveFailures.lookup service).getD 0)).toNat := by
    rw [failures, record, AList.lookup_insert, Option.getD_some]
  rw [hnew, record]
  dsimp only
  rw [hold, bne_iff_ne, ne_eq, decide_eq_decide]
  rfl

end HealthTracker

namespace HealthChecker

open HealthTracker

variable {results : List (String × Bool)} {t : HealthTracker} {c : Bool} {name : String}

section Collect

variable (hn : (results.map (·.1)).Nodup)

include hn

theorem failures_collect (name : String) :
    (results.foldl collect (c, t)).2.failures name =
      if (name, true) ∈ results then 0
      else if (name, false) ∈ results then min (t.failures name + 1) (2 ^ 32 - 1)
      else t.failures name := by
  induction results using List.reverseRecOn generalizing name with
  | nil => simp
  | append_singleton results r ih =>
    obtain ⟨hne, hn⟩ := List.nodup_map_concat.mp hn
    rw [List.foldl_append, List.foldl_cons, List.foldl_nil, collect]
    simp only [failures_record, ih hn, List.mem_append, List.mem_singleton]
    obtain ⟨service, ok⟩ := r
    by_cases hname : name = service
    · subst hname
      have hno : ∀ b, (name, b) ∉ results := fun b hb => hne _ hb rfl
      cases ok <;> simp [hno]
    · simp [hname]

theorem collect_fst :
    (results.foldl collect (c, t)).1 = true ↔ c = true ∨
      ∃ name, ¬(2 ≤ t.failures name ↔ 2 ≤ (results.foldl collect (c, t)).2.failures name) := by
  induction results using List.reverseRecOn with
  | nil => simp
  | append_singleton results r ih =>
    have hall := failures_collect hn (c := c) (t := t)
    obtain ⟨hne, hn'⟩ := List.nodup_map_concat.mp hn
    have hbefore := failures_collect hn' (c := c) (t := t)
    obtain ⟨service, ok⟩ := r
    have hno : ∀ b, (service, b) ∉ results := fun b hb => hne _ hb rfl
    -- The last service has not been recorded before, and no other one is recorded now.
    have hsame : (results.foldl collect (c, t)).2.failures service = t.failures service := by
      rw [hbefore]
      simp [hno]
    have hother : ∀ name, name ≠ service →
        ((results ++ [(service, ok)]).foldl collect (c, t)).2.failures name =
          (results.foldl collect (c, t)).2.failures name := by
      intro name hname
      rw [hall, hbefore]
      simp [hname]
    have hflag : ((results ++ [(service, ok)]).foldl collect (c, t)).1 =
        ((results.foldl collect (c, t)).1 ||
          ((results.foldl collect (c, t)).2.record service ok).1) := by
      rw [List.foldl_append]
      rfl
    have hlast : ((results ++ [(service, ok)]).foldl collect (c, t)).2 =
        ((results.foldl collect (c, t)).2.record service ok).2 := by
      rw [List.foldl_append]
      rfl
    rw [hflag, Bool.or_eq_true, ih hn', record_fst, ← hlast, hsame, or_assoc]
    apply or_congr_right
    constructor
    · rintro (⟨name, h⟩ | h)
      · by_cases hname : name = service
        · subst hname
          rw [hsame] at h
          exact absurd Iff.rfl h
        · exact ⟨name, by rwa [hother name hname]⟩
      · exact ⟨service, h⟩
    · rintro ⟨name, h⟩
      by_cases hname : name = service
      · subst hname
        exact .inr h
      · exact .inl ⟨name, by rwa [hother name hname] at h⟩

end Collect

/-! ## One round -/

variable {s : HealthChecker} {r : Round} {prev : Option Round}

/-- The tracker has a failure on record for exactly the services that failed in the last round. -/
def Tracks (prev : Option Round) (t : HealthTracker) : Prop :=
  ∀ name, 1 ≤ t.failures name ↔ prev.any (·.failed name) = true

def collected (s : HealthChecker) (r : Round) : Bool × HealthTracker :=
  let retained := s.tracker.retain r.hosted
  r.results.foldl collect (retained.1 || s.firstRound, retained.2)

theorem round_eq (s : HealthChecker) (r : Round) :
    s.round r =
      let firstRound := if (s.tracker.retain r.hosted).1 then s.firstRound else false
      let report :=
        ⟨nextVersion r.nowMs s.localHealth.version, (s.collected r).2.unhealthy⟩
      if (s.collected r).1 then (some report, ⟨(s.collected r).2, firstRound, report⟩)
      else (none, ⟨(s.collected r).2, firstRound, s.localHealth⟩) := rfl

theorem failures_collected (s : HealthChecker) (r : Round) (name : String) :
    (s.collected r).2.failures name =
      if r.failed name = true then min (s.tracker.failures name + 1) (2 ^ 32 - 1) else 0 := by
  have h := failures_collect r.nodup_results
    (c := (s.tracker.retain r.hosted).1 || s.firstRound) (t := (s.tracker.retain r.hosted).2) name
  simp only [failures_retain, Round.mem_hosted] at h
  rw [collected, h]
  simp only [Round.failed_iff]
  by_cases hok : (name, true) ∈ r.results
  · rw [if_pos hok, if_neg (Round.not_failed hok)]
  · rw [if_neg hok]
    by_cases hfail : (name, false) ∈ r.results
    · simp [hfail]
    · simp [hok, hfail]

theorem Tracks.retain_fst (h : Tracks none s.tracker) :
    (s.tracker.retain r.hosted).1 = false := by
  have hzero : ∀ name, s.tracker.failures name = 0 := by
    intro name
    have hn := h name
    simp only [Option.any_none, Bool.false_eq_true, iff_false] at hn
    omega
  rw [Bool.eq_false_iff, ne_eq, HealthTracker.retain_fst, not_not, unhealthy_eq_iff]
  intro name
  rw [failures_retain, hzero name, ite_self]

theorem tracks_collected (s : HealthChecker) (r : Round) : Tracks (some r) (s.collected r).2 := by
  intro name
  rw [failures_collected, Option.any_some]
  split_ifs with hf
  · simp [hf]
  · simp [hf]

theorem Tracks.unhealthy_collected (h : Tracks prev s.tracker) :
    (s.collected r).2.unhealthy = failingTwice prev r := by
  have hnodup : (r.hosted.filter fun name =>
      r.failed name && prev.any (·.failed name)).Nodup := r.nodup.filter _
  rw [unhealthy, failingTwice, List.insertionSort_eq_iff (nodup_unhealthy_names _) hnodup]
  intro name
  have hmem : name ∈ (s.collected r).2.unhealthy ↔ 2 ≤ (s.collected r).2.failures name :=
    mem_unhealthy
  rw [unhealthy, List.mem_insertionSort, failures_collected] at hmem
  rw [hmem, List.mem_filter, Bool.and_eq_true, ← h name]
  split_ifs with hf
  · have hhosted : name ∈ r.hosted := Round.mem_hosted.mpr (.inr (Round.failed_iff.mp hf))
    simp only [hf, hhosted, true_and]
    omega
  · simp [hf]

/-- The flag says that it is the first round or that the list has changed. -/
theorem collected_fst :
    (s.collected r).1 = true ↔
      s.firstRound = true ∨ s.tracker.unhealthy ≠ (s.collected r).2.unhealthy := by
  have hflag := collect_fst r.nodup_results
    (c := (s.tracker.retain r.hosted).1 || s.firstRound) (t := (s.tracker.retain r.hosted).2)
  rw [← collected, Bool.or_eq_true, HealthTracker.retain_fst, ne_eq, unhealthy_eq_iff,
    or_comm (b := s.firstRound = true), or_assoc] at hflag
  rw [hflag, ne_eq, unhealthy_eq_iff]
  apply or_congr_right
  rw [not_forall, not_forall, ← exists_or]
  apply exists_congr
  intro name
  rw [failures_retain]
  by_cases hhosted : name ∈ r.hosted
  · simp [hhosted]
  · have hfailed : ¬r.failed name = true := by
      rw [Round.failed_iff]
      exact fun h => hhosted (Round.mem_hosted.mpr (.inr h))
    rw [failures_collected, if_neg hhosted, if_neg hfailed]
    simp

/-! ## Whole runs -/

/-- Between rounds: the failures of the last round are on record, and the report has the
unhealthy services of the tracker. -/
structure Settled (past : List Round) (s : HealthChecker) : Prop where
  tracks : Tracks past.head? s.tracker
  first : s.firstRound = past.isEmpty
  reported : s.localHealth.unhealthy = s.tracker.unhealthy

variable {past : List Round}

theorem settled_start : Settled [] start := by
  constructor
  · intro name
    simp [start, HealthTracker.default, failures]
  · rfl
  · rfl

/-- A round publishes the services that failed twice, in the first round and when they are others
than before. -/
theorem Settled.round (h : Settled past s) (r : Round) :
    Settled (r :: past) (s.round r).2 ∧
      (s.round r).1 = (if past = [] ∨ failingTwice past.head? r ≠ s.localHealth.unhealthy then
        some ⟨nextVersion r.nowMs s.localHealth.version, failingTwice past.head? r⟩ else none) ∧
      (s.round r).2.localHealth = (s.round r).1.getD s.localHealth ∧
      (s.round r).2.localHealth.unhealthy = failingTwice past.head? r := by
  have hlist := h.tracks.unhealthy_collected (r := r)
  have hflag := collected_fst (s := s) (r := r)
  have hfirst : (if (s.tracker.retain r.hosted).1 then s.firstRound else false) = false := by
    cases past with
    | nil => rw [h.tracks.retain_fst, if_neg Bool.false_ne_true]
    | cons r' past => rw [h.first, List.isEmpty_cons, ite_self]
  rw [hlist, h.first, List.isEmpty_iff, ← h.reported, ne_comm] at hflag
  rw [round_eq]
  dsimp only
  rw [hfirst]
  by_cases hc : (s.collected r).1 = true
  · rw [if_pos hc, if_pos (hflag.mp hc), hlist]
    exact ⟨⟨tracks_collected s r, rfl, hlist.symm⟩, rfl, rfl, rfl⟩
  · have hsame := mt hflag.mpr hc
    rw [if_neg hc, if_neg hsame]
    rw [not_or, not_not] at hsame
    exact ⟨⟨tracks_collected s r, rfl, hsame.2.symm.trans hlist.symm⟩, rfl, rfl, hsame.2.symm⟩

theorem settled_after (past : List Round) : Settled past (after past) := by
  induction past with
  | nil => exact settled_start
  | cons r past ih => exact (ih.round r).1

def reports : List Round → List ServiceHealth
  | [] => []
  | r :: past => ((after past).round r).1.toList ++ reports past

theorem localHealth_after (past : List Round) :
    (after past).localHealth = (reports past).head?.getD .default := by
  induction past with
  | nil => rfl
  | cons r past ih =>
    obtain ⟨_, _, hhealth, _⟩ := (settled_after past).round r
    have hstep : (after (r :: past)).localHealth =
        ((after past).round r).1.getD (after past).localHealth := hhealth
    rw [hstep, reports, ih]
    cases ((after past).round r).1 <;> rfl

theorem lt_nextVersion {nowMs prev : UInt64} (h : prev.toNat + 1 < 2 ^ 64) :
    prev < nextVersion nowMs prev := by
  have hsucc := toNat_version_succ h
  rw [nextVersion]
  split_ifs with hlt <;> rw [UInt64.lt_iff_toNat_lt] at * <;> omega

theorem reports_pairwise (h : ∀ report ∈ reports past, report.version.toNat + 1 < 2 ^ 64) :
    (reports past).Pairwise fun newer older => older.version < newer.version := by
  induction past with
  | nil => exact List.Pairwise.nil
  | cons r past ih =>
    obtain ⟨_, hreport, _⟩ := (settled_after past).round r
    rw [reports] at h ⊢
    have hold := ih fun report hr => h report (List.mem_append_right _ hr)
    rw [hreport] at h ⊢
    split_ifs at h ⊢
    · rw [Option.toList_some, List.singleton_append, List.pairwise_cons]
      refine ⟨?_, hold⟩
      intro older ho
      -- The report in place is the latest one, and no older one is above it.
      cases hrs : reports past with
      | nil => simp [hrs] at ho
      | cons latest rest =>
        have hlatest : (after past).localHealth = latest := by
          rw [localHealth_after, hrs]
          rfl
        have hlt : latest.version < nextVersion r.nowMs latest.version :=
          lt_nextVersion (h latest (by simp [hrs]))
        rw [hlatest]
        rw [hrs] at ho hold
        rcases List.mem_cons.mp ho with rfl | ho
        · exact hlt
        · exact UInt64.lt_trans ((List.pairwise_cons.mp hold).1 older ho) hlt
    · exact hold

/-! ## The order of completion -/

/-- The same round with the probes completing in another order. -/
structure Reordered (r r' : Round) : Prop where
  hosted : r.hosted.Perm r'.hosted
  results : r.results.Perm r'.results
  nowMs : r.nowMs = r'.nowMs

variable {past' : List Round} {r' : Round}

theorem Reordered.failed (h : Reordered r r') (name : String) : r.failed name = r'.failed name := by
  rw [Bool.eq_iff_iff, Round.failed_iff, Round.failed_iff, h.results.mem_iff]

theorem Reordered.failingTwice (h : Reordered r r') (hp : List.Forall₂ Reordered past past') :
    Stouter.failingTwice past.head? r = Stouter.failingTwice past'.head? r' := by
  have hprev : ∀ name, past.head?.any (·.failed name) = past'.head?.any (·.failed name) := by
    intro name
    cases hp with
    | nil => rfl
    | cons hr _ => exact hr.failed name
  rw [Stouter.failingTwice, Stouter.failingTwice,
    List.insertionSort_eq_iff (r.nodup.filter _) (r'.nodup.filter _)]
  intro name
  rw [List.mem_filter, List.mem_filter, h.hosted.mem_iff, h.failed, hprev]

theorem reports_reordered (h : List.Forall₂ Reordered past past') :
    reports past = reports past' := by
  induction h with
  | nil => rfl
  | @cons r r' past past' hr hp ih =>
    obtain ⟨_, hreport, _⟩ := (settled_after past).round r
    obtain ⟨_, hreport', _⟩ := (settled_after past').round r'
    have hhealth : (after past).localHealth = (after past').localHealth := by
      rw [localHealth_after, localHealth_after, ih]
    have hnil : past = [] ↔ past' = [] := by
      cases hp <;> simp
    rw [reports, reports, hreport, hreport', ih, hr.failingTwice hp, hhealth, hr.nowMs]
    simp only [hnil]

/-- After every round of every run the report has exactly the services that failed in this round
and in the one before, sorted; it is published in the first round and in those in which it differs
from the one before, whatever the order in which the probes complete, under versions that
strictly increase. -/
theorem health_reports_exact (past : List Round) (r : Round) :
    (after (r :: past)).localHealth.unhealthy = Stouter.failingTwice past.head? r ∧
    (((after past).round r).1.isSome = true ↔
      past = [] ∨ Stouter.failingTwice past.head? r ≠ (after past).localHealth.unhealthy) ∧
    (after (r :: past)).localHealth = ((after past).round r).1.getD (after past).localHealth ∧
    (∀ run, List.Forall₂ Reordered (r :: past) run →
      reports run = reports (r :: past) ∧
        (after run).localHealth = (after (r :: past)).localHealth) ∧
    ((∀ report ∈ reports (r :: past), report.version.toNat + 1 < 2 ^ 64) →
      (reports (r :: past)).Pairwise fun newer older => older.version < newer.version) := by
  obtain ⟨_, hreport, hhealth, hlist⟩ := (settled_after past).round r
  refine ⟨hlist, ?_, hhealth, ?_, reports_pairwise⟩
  · rw [hreport]
    split_ifs with h
    · simp [h]
    · simp [h]
  · intro run hrun
    have hreports := reports_reordered hrun
    refine ⟨hreports.symm, ?_⟩
    rw [localHealth_after, localHealth_after, hreports]

def apiDown (nowMs : UInt64) : Round :=
  ⟨["api", "web"], [("web", true), ("api", false)], nowMs, by decide, by decide⟩

/-- The clock steps back between the two reports. -/
theorem health_reports_exact_apiDown :
    (after [apiDown 50, apiDown 100]).localHealth = ⟨101, ["api"]⟩ ∧
      reports [apiDown 50, apiDown 100] = [⟨101, ["api"]⟩, ⟨100, []⟩] ∧
      (reports [apiDown 50, apiDown 100]).Pairwise
        fun newer older => older.version < newer.version := by
  have hreports : reports [apiDown 50, apiDown 100] = [⟨101, ["api"]⟩, ⟨100, []⟩] := by decide
  obtain ⟨_, _, _, _, hversions⟩ := health_reports_exact [apiDown 100] (apiDown 50)
  refine ⟨by decide, hreports, hversions ?_⟩
  rw [hreports]
  decide

end HealthChecker

end Stouter
