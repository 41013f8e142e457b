import Mathlib.Algebra.Order.BigOperators.Group.List
import Mathlib.Algebra.Order.Ring.Rat
import Mathlib.Algebra.Ring.Nat
import Mathlib.Tactic.NormNum
import Stouter.Budget.Basic
import Stouter.Subscribe.Attempt
import Stouter.Transition.Basic

/-! # The retry budget of a service

All requests to one service share a proxy and its budget. A request deposits
when it arrives and then takes its turns in the loop of `attempt`, in any order
with the turns of other requests and for as long as its client waits; a turn
asks the budget before it retries on a status. The balance is taken as a
rational number.
-/

namespace Stouter

def retryBudgetRatio : ℚ := 1 / 5

def retryBudgetMax : ℚ := 20

/-- Caps status-driven retries at a fraction of the request volume, plus a burst. -/
structure RetryBudget where
  tokens : ℚ
  deriving DecidableEq

namespace RetryBudget

def new : RetryBudget := ⟨retryBudgetMax⟩

def deposit (b : RetryBudget) : RetryBudget := ⟨min (b.tokens + retryBudgetRatio) retryBudgetMax⟩

def tryWithdraw (b : RetryBudget) : Bool × RetryBudget :=
  if b.tokens ≥ 1 then (true, ⟨b.tokens - 1⟩) else (false, b)

end RetryBudget

variable {ρ : Type*}

/-- A request in the loop of `attempt`, with its outcome once it has left it. -/
structure Handling (ρ : Type*) where
  req : Request
  backends : List Backend
  left : ℕ
  balancer : Balancer
  body : RequestBody
  fallback : Option (Outcome ρ)
  log : AttemptLog ρ
  outcome : Option (Outcome ρ)

def Handling.start (req : Request) (backends : List Backend) (b : Balancer) (body : RequestBody) :
    Handling ρ :=
  ⟨req, backends, min backends.length maxTunnelAttempts, b, body, none, [], none⟩

/-- The requests to a service, its budget, and the calls made to the budget so far. -/
structure ServiceTraffic (ρ : Type*) where
  budget : RetryBudget
  requests : List (Handling ρ)
  calls : List Budget.Call

inductive TrafficAct (ρ : Type*)
  | arrive (req : Request) (backends : List Backend) (b : Balancer) (body : RequestBody)
  | turn (i : ℕ) (turn : Turn ρ)

/-- The answer of the budget to a turn that asked it. -/
def asked (before after : AttemptLog ρ) : Option Bool :=
  (after.drop before.length).head?.bind (·.withdrawal)

def Handling.took (h : Handling ρ) : TurnEnd ρ → Handling ρ
  | .exit outcome log => { h with log, outcome := some (finish outcome h.fallback) }
  | .again balancer body fallback log =>
    { h with left := h.left - 1, balancer, body, fallback, log }

namespace ServiceTraffic

def new : ServiceTraffic ρ := ⟨.new, [], []⟩

/-- Put a request back after its turn, which may have asked the budget. -/
def charge (s : ServiceTraffic ρ) (i : ℕ) (h h' : Handling ρ) : ServiceTraffic ρ where
  budget := if (asked h.log h'.log).isSome then s.budget.tryWithdraw.2 else s.budget
  requests := s.requests.set i h'
  calls := s.calls ++ ((asked h.log h'.log).map Budget.Call.withdraw).toList

def next (http : HttpCrate) (s : ServiceTraffic ρ) : TrafficAct ρ → Option (ServiceTraffic ρ)
  | .arrive req backends b body =>
    some ⟨s.budget.deposit, s.requests ++ [.start req backends b body], s.calls ++ [.deposit]⟩
  | .turn i turn =>
    s.requests[i]?.bind fun h =>
      match h.outcome, h.left with
      | some _, _ => none
      | none, 0 => some (s.charge i h (h.took (.exit noBackendReachable h.log)))
      | none, left + 1 =>
        let turn := { turn with withdraw := s.budget.tryWithdraw.1 }
        some (s.charge i h (h.took (attemptTurn http h.req h.backends turn left h.balancer h.body
          h.fallback h.log)))

def system (http : HttpCrate) : Transition (ServiceTraffic ρ) (TrafficAct ρ) :=
  Transition.ofNext (· = new) (next http)

end ServiceTraffic

/-! ## What a turn asks -/

def TurnEnd.log : TurnEnd ρ → AttemptLog ρ
  | .exit _ log => log
  | .again _ _ _ log => log

@[simp] theorem took_log (h : Handling ρ) (e : TurnEnd ρ) : (h.took e).log = e.log := by
  cases e <;> rfl

/-- The turn logged nothing or one more attempt, whose budget answer is that of the turn. -/
def Asks (withdraw : Bool) (log log' : AttemptLog ρ) : Prop :=
  log' = log ∨ ∃ a : Attempt ρ, log' = log ++ [a] ∧
    (a.withdrawal = none ∨ a.withdrawal = some withdraw)

theorem attemptTurn_asks (http : HttpCrate) (req : Request) (backends : List Backend)
    (turn : Turn ρ) (left : ℕ) (b : Balancer) (body : RequestBody)
    (fallback : Option (Outcome ρ)) (log : AttemptLog ρ) :
    Asks turn.withdraw log
      (attemptTurn http req backends turn left b body fallback log).log := by
  unfold attemptTurn
  rcases (turn.interfere b).pick backends log.tried turn.now with ⟨r, b₁⟩
  cases r with
  | allTried => exact .inl rfl
  | atCapacity =>
    dsimp only
    split_ifs
    · exact .inl rfl
    · exact .inl rfl
  | chosen i slot =>
    dsimp only
    cases nodeUri http (backends.get i).node.id req.pathAndQuery with
    | none => exact .inr ⟨_, rfl, .inl rfl⟩
    | some uri =>
      rcases body.forAttempt with ⟨_ | bytes, body₁⟩
      · exact .inr ⟨_, rfl, .inl rfl⟩
      · dsimp only
        by_cases htime : ((backends.get i).requestTimeout.isSome && turn.timedOut) = true
        · rw [if_pos htime]
          exact .inr ⟨_, rfl, .inl rfl⟩
        · rw [if_neg htime]
          cases turn.reply with
          | failure => exact .inr ⟨_, rfl, .inl rfl⟩
          | connectError =>
            dsimp only
            split_ifs
            · exact .inr ⟨_, rfl, .inl rfl⟩
            · exact .inr ⟨_, rfl, .inl rfl⟩
          | response status resp =>
            dsimp only
            split_ifs with _ hno
            · exact .inr ⟨_, rfl, .inl rfl⟩
            · exact .inr ⟨_, rfl, .inr (by simpa using hno)⟩
            · exact .inr ⟨_, rfl, .inr (by simpa using hno)⟩

/-- The retries on a status that the budget paid for. -/
def AttemptLog.paid (log : AttemptLog ρ) : ℕ := log.countP fun a => a.withdrawal == some true

/-- The attempts that were followed by another one although they got a response. -/
def AttemptLog.statusRetries (log : AttemptLog ρ) : ℕ :=
  log.dropLast.countP fun a => a.response?.isSome

theorem asked_cases {withdraw : Bool} {log log' : AttemptLog ρ} (h : Asks withdraw log log') :
    (asked log log' = none ∧ log'.paid = log.paid) ∨
      (asked log log' = some withdraw ∧
        log'.paid = log.paid + Budget.granted [.withdraw withdraw]) := by
  rcases h with rfl | ⟨a, rfl, hnone | hsome⟩
  · left
    simp [asked]
  · left
    simp [asked, hnone, AttemptLog.paid]
  · right
    simp only [asked, AttemptLog.paid, List.drop_left, List.head?_cons, Option.bind_some, hsome,
      List.countP_append, true_and]
    cases withdraw <;> simp [hsome, Budget.granted]

/-! ## One request -/

/-- A request in the loop is as it should be before a turn, and one that has left it as it should
be after the loop. -/
def Handling.Sound (h : Handling ρ) : Prop :=
  match h.outcome with
  | none => Ongoing h.req h.body.isReplayable h.backends h.fallback h.log
  | some outcome => ∃ replayable, Ended h.req replayable h.backends outcome h.log

theorem Handling.Sound.retried {h : Handling ρ} (hs : h.Sound) :
    ∃ replayable, ∀ a ∈ h.log.dropLast, a.Retried h.req replayable := by
  unfold Handling.Sound at hs
  split at hs
  · exact ⟨_, fun a ha => hs.retried a ((List.dropLast_sublist h.log).subset ha)⟩
  · obtain ⟨replayable, hend⟩ := hs
    exact ⟨replayable, hend.retried⟩

theorem Handling.Sound.statusRetries_le {h : Handling ρ} (hs : h.Sound) :
    h.log.statusRetries ≤ h.log.paid := by
  obtain ⟨replayable, hretried⟩ := hs.retried
  have hpaid : ∀ a ∈ h.log.dropLast, a.response?.isSome = true →
      (a.withdrawal == some true) = true := by
    intro a ha hresp
    rcases hretried a ha with ⟨hr, -, -⟩ | ⟨status, resp, -, hw, -⟩
    · simp [Attempt.response?, hr] at hresp
    · simp [hw]
  calc h.log.statusRetries ≤ h.log.dropLast.countP fun a => a.withdrawal == some true :=
        List.countP_mono_left hpaid
    _ ≤ h.log.paid := (List.dropLast_sublist h.log).countP_le

/-- A request in its loop runs out of attempts or takes a turn with the answer of the budget. -/
inductive Handling.Turned (http : HttpCrate) (answer : Bool) (h : Handling ρ) :
    Handling ρ → Prop where

  | spent : h.left = 0 → Turned http answer h (h.took (.exit noBackendReachable h.log))

  | turn {left : ℕ} {turn : Turn ρ} : h.left = left + 1 → turn.withdraw = answer →
      Turned http answer h (h.took (attemptTurn http h.req h.backends turn left h.balancer h.body
        h.fallback h.log))

section Turned

variable {http : HttpCrate} {answer : Bool} {h h' : Handling ρ}

theorem Handling.Turned.asks (ht : h.Turned http answer h') : Asks answer h.log h'.log := by
  cases ht with
  | spent => exact .inl (took_log _ _)
  | @turn left turn _ hw =>
    rw [took_log, ← hw]
    exact attemptTurn_asks http h.req h.backends turn left h.balancer h.body h.fallback h.log

theorem Handling.Turned.sound (ht : h.Turned http answer h') (ho : h.outcome = none)
    (hs : h.Sound) : h'.Sound := by
  simp only [Handling.Sound, ho] at hs
  cases ht with
  | spent => exact ⟨_, hs.giveUp _ _⟩
  | @turn left turn =>
    rcases attemptTurn_cases http h.req h.backends turn left h.balancer h.body h.fallback h.log
      with ⟨status, reason, ht⟩ | ⟨a, outcome, hf, hb, ht, hout⟩ |
        ⟨a, b', body', hf, hb, hr, hrep, ht⟩
    · rw [ht]
      exact ⟨_, hs.giveUp status reason⟩
    · rw [ht]
      exact ⟨_, hs.stop hf hb hout⟩
    · rw [ht]
      have hnext := hs.again hf hb hr
      rw [← hrep] at hnext
      simpa only [Handling.Sound, Handling.took, ho] using hnext

/-- The turns a request has taken are those of the loop of `attempt` in some environment: the loop
has come to where the request is, or has ended with its outcome and log. -/
def Handling.Follows (http : HttpCrate) (h : Handling ρ) : Prop :=
  ∃ b₀ body₀ turns, match h.outcome with
    | none => ∀ turns' : ℕ → Turn ρ, (∀ n < h.log.length, turns' n = turns n) →
        attemptLoop http h.req h.backends turns' (min h.backends.length maxTunnelAttempts) b₀ body₀
            none [] =
          attemptLoop http h.req h.backends turns' h.left h.balancer h.body h.fallback h.log
    | some outcome => ∃ out fallback, finish out fallback = outcome ∧
        attemptLoop http h.req h.backends turns (min h.backends.length maxTunnelAttempts) b₀ body₀
            none [] = (out, fallback, h.log)

theorem Handling.Turned.follows (ht : h.Turned http answer h') (ho : h.outcome = none)
    (hf : h.Follows http) : h'.Follows http := by
  obtain ⟨b₀, body₀, turns, hloop⟩ := hf
  simp only [ho] at hloop
  cases ht with
  | spent hleft =>
    refine ⟨b₀, body₀, turns, noBackendReachable, h.fallback, rfl, ?_⟩
    refine (hloop turns fun _ _ => rfl).trans ?_
    rw [hleft]
    rfl
  | @turn left turn hleft =>
    -- The environment so far, with this turn in the next place.
    let more : ℕ → Turn ρ := Function.update turns h.log.length turn
    have hagree : ∀ n < h.log.length, more n = turns n := fun n hn =>
      Function.update_of_ne (Nat.ne_of_lt hn) _ _
    have hmore : more h.log.length = turn := Function.update_self _ _ _
    have hcases := attemptTurn_cases http h.req h.backends turn left h.balancer h.body h.fallback
      h.log
    have hexit : ∀ out log, attemptTurn http h.req h.backends turn left h.balancer h.body
        h.fallback h.log = .exit out log → (h.took (.exit out log)).Follows http := by
      intro out log he
      refine ⟨b₀, body₀, more, out, h.fallback, rfl, (hloop more hagree).trans ?_⟩
      rw [hleft, attemptLoop, hmore, he]
      rfl
    rcases hcases with ⟨status, reason, he⟩ | ⟨a, outcome, -, -, he, -⟩ |
      ⟨a, b', body', -, -, -, -, he⟩
    · rw [he]
      exact hexit _ _ he
    · rw [he]
      exact hexit _ _ he
    · rw [he]
      refine ⟨b₀, body₀, more, ?_⟩
      simp only [Handling.took, ho]
      intro turns' hturns'
      rw [List.length_append, List.length_singleton] at hturns'
      have hnow : turns' h.log.length = turn := (hturns' _ (Nat.lt_succ_self _)).trans hmore
      have hbefore : ∀ n < h.log.length, turns' n = turns n := fun n hn =>
        (hturns' n (by omega)).trans (hagree n hn)
      rw [hloop turns' hbefore, hleft, attemptLoop, hnow, he]
      rfl

end Turned

/-! ## All requests -/

namespace ServiceTraffic

variable {http : HttpCrate} {s t : ServiceTraffic ρ} {act : TrafficAct ρ}

theorem next_cases (h : next http s act = some t) :
    (∃ req backends b body, t =
      ⟨s.budget.deposit, s.requests ++ [.start req backends b body], s.calls ++ [.deposit]⟩) ∨
    ∃ i hd hd', s.requests[i]? = some hd ∧ hd.outcome = none ∧
      hd.Turned http s.budget.tryWithdraw.1 hd' ∧ t = s.charge i hd hd' := by
  cases act with
  | arrive req backends b body =>
    obtain rfl := Option.some.inj h
    exact .inl ⟨req, backends, b, body, rfl⟩
  | turn i turn =>
    obtain ⟨hd, hi, h⟩ := Option.bind_eq_some_iff.mp h
    right
    split at h
    · cases h
    · rename_i ho hleft
      obtain rfl := Option.some.inj h
      exact ⟨i, hd, _, hi, ho, .spent hleft, rfl⟩
    · rename_i left ho hleft
      obtain rfl := Option.some.inj h
      exact ⟨i, hd, _, hi, ho, .turn hleft rfl, rfl⟩

def paid (s : ServiceTraffic ρ) : ℕ := (s.requests.map fun h => h.log.paid).sum

def statusRetries (s : ServiceTraffic ρ) : ℕ := (s.requests.map fun h => h.log.statusRetries).sum

/-- The requests are as they should be, the balance is what the calls lead to, and the calls are one
deposit for each request and the withdrawals in the logs. -/
structure Sound (s : ServiceTraffic ρ) : Prop where
  requests : ∀ h ∈ s.requests, h.Sound
  replay : Budget.replay retryBudgetRatio retryBudgetMax retryBudgetMax s.calls =
    some s.budget.tokens
  deposits : Budget.deposits s.calls = s.requests.length
  paid : s.paid = Budget.granted s.calls

theorem sound_new : (new : ServiceTraffic ρ).Sound := ⟨by simp [new], rfl, rfl, rfl⟩

theorem after_tryWithdraw (b : RetryBudget) :
    Budget.after retryBudgetRatio retryBudgetMax b.tokens (.withdraw b.tryWithdraw.1) =
      some b.tryWithdraw.2.tokens := by
  unfold RetryBudget.tryWithdraw
  split_ifs with h
  · exact if_pos h
  · exact if_neg h

theorem granted_append (calls calls' : List Budget.Call) :
    Budget.granted (calls ++ calls') = Budget.granted calls + Budget.granted calls' :=
  List.count_append

theorem Sound.arrive (hs : s.Sound) (req : Request) (backends : List Backend) (b : Balancer)
    (body : RequestBody) :
    Sound (⟨s.budget.deposit, s.requests ++ [.start req backends b body],
      s.calls ++ [.deposit]⟩ : ServiceTraffic ρ) := by
  constructor
  · intro h hh
    rcases List.mem_append.mp hh with hh | hh
    · exact hs.requests h hh
    · rw [List.mem_singleton.mp hh]
      exact ongoing_nil req body.isReplayable
  · rw [Budget.replay_concat hs.replay]
    rfl
  · rw [Budget.deposits, List.count_append, ← Budget.deposits, hs.deposits, List.length_append]
    rfl
  · have hpaid := hs.paid
    simp only [ServiceTraffic.paid, List.map_append, List.sum_append] at hpaid ⊢
    rw [hpaid, granted_append]
    rfl

theorem Sound.charge {i : ℕ} {hd hd' : Handling ρ} (hs : s.Sound) (hi : s.requests[i]? = some hd)
    (ho : hd.outcome = none) (ht : hd.Turned http s.budget.tryWithdraw.1 hd') :
    (s.charge i hd hd').Sound := by
  have hasks := ht.asks
  obtain ⟨l₁, l₂, hsplit, hset, -⟩ := List.split_of_getElem? hi
  have hrequests : (s.charge i hd hd').requests = l₁ ++ hd' :: l₂ := hset hd'
  have hpaid : (s.charge i hd hd').paid + hd.log.paid = s.paid + hd'.log.paid := by
    simp only [ServiceTraffic.paid, hrequests, hsplit, List.map_append, List.map_cons,
      List.sum_append, List.sum_cons]
    omega
  constructor
  · intro h hh
    rw [hrequests] at hh
    have hsound : hd'.Sound := ht.sound ho (hs.requests hd (List.mem_of_getElem? hi))
    rcases List.mem_append.mp hh with hh | hh
    · exact hs.requests h (by simp [hsplit, hh])
    · rcases List.mem_cons.mp hh with rfl | hh
      · exact hsound
      · exact hs.requests h (by simp [hsplit, hh])
  · rcases asked_cases hasks with ⟨hno, -⟩ | ⟨hyes, -⟩
    · simpa [ServiceTraffic.charge, hno] using hs.replay
    · simp only [ServiceTraffic.charge, hyes, Option.map_some, Option.toList_some,
        Option.isSome_some, if_true]
      rw [Budget.replay_concat hs.replay, after_tryWithdraw]
  · have hlen : (s.charge i hd hd').requests.length = s.requests.length := List.length_set
    rw [hlen, ← hs.deposits]
    rcases asked_cases hasks with ⟨hno, -⟩ | ⟨hyes, -⟩
    · simp [ServiceTraffic.charge, hno]
    · simp [ServiceTraffic.charge, hyes, Budget.deposits]
  · have hold := hs.paid
    rcases asked_cases hasks with ⟨hno, hlog⟩ | ⟨hyes, hlog⟩
    · simp only [ServiceTraffic.charge, hno, Option.map_none, Option.toList_none,
        List.append_nil] at *
      omega
    · have hcalls : (s.charge i hd hd').calls = s.calls ++ [.withdraw s.budget.tryWithdraw.1] := by
        simp [ServiceTraffic.charge, hyes]
      rw [hcalls, granted_append]
      omega

theorem Sound.step (hs : s.Sound) (h : next http s act = some t) : t.Sound := by
  rcases next_cases h with ⟨req, backends, b, body, rfl⟩ | ⟨i, hd, hd', hi, ho, ht, rfl⟩
  · exact hs.arrive req backends b body
  · exact hs.charge hi ho ht

theorem sound_of_reachable (h : (system http).Reachable s) : s.Sound := by
  apply h.invariant
  · rintro s rfl
    exact sound_new
  · intro s act t hs hstep
    exact hs.step hstep

theorem follows_start (http : HttpCrate) (req : Request) (backends : List Backend) (b : Balancer)
    (body : RequestBody) : (Handling.start req backends b body : Handling ρ).Follows http :=
  ⟨b, body, fun _ => ⟨id, 0, false, .failure, 0, false⟩, fun _ _ => rfl⟩

/-- Interleaved with all others, every request still runs the loop of `attempt`. -/
theorem follows_of_reachable (h : (system http).Reachable s) :
    ∀ hd ∈ s.requests, hd.Follows http := by
  refine h.invariant (I := fun s => ∀ hd ∈ s.requests, hd.Follows http) ?_ ?_
  · rintro s rfl hd hmem
    cases hmem
  · intro s act t hs hstep x hx
    rcases next_cases hstep with ⟨req, backends, b, body, rfl⟩ | ⟨i, hd, hd', hi, ho, ht, rfl⟩
    · rcases List.mem_append.mp hx with hx | hx
      · exact hs x hx
      · rw [List.mem_singleton.mp hx]
        exact follows_start http req backends b body
    · rcases List.mem_or_eq_of_mem_set hx with hx | rfl
      · exact hs x hx
      · exact ht.follows ho (hs hd (List.mem_of_getElem? hi))

theorem Sound.statusRetries_le (hs : s.Sound) : s.statusRetries ≤ Budget.granted s.calls := by
  rw [← hs.paid]
  exact List.sum_le_sum fun h hh => (hs.requests h hh).statusRetries_le

/-- A refused withdrawal means that less than one token was left. -/
theorem tokens_lt_of_refused (h : next http s act = some t)
    (hcalls : t.calls = s.calls ++ [.withdraw false]) : s.budget.tokens < 1 := by
  rcases next_cases h with ⟨req, backends, b, body, rfl⟩ | ⟨i, hd, hd', hi, -, ht, rfl⟩
  · simp at hcalls
  · rcases asked_cases ht.asks with ⟨hno, -⟩ | ⟨hyes, -⟩
    · simp [ServiceTraffic.charge, hno] at hcalls
    · simp only [ServiceTraffic.charge, hyes, Option.map_some, Option.toList_some,
        List.append_cancel_left_eq, List.cons.injEq, Budget.Call.withdraw.injEq, and_true] at hcalls
      unfold RetryBudget.tryWithdraw at hcalls
      split_ifs at hcalls with hlt
      exact not_le.mp hlt

/-- In every run the balance stays within the cap, any stretch of calls with `n` deposits grants at
most `20 + n / 5` withdrawals, a withdrawal is refused only below one token, and retries on a status
are bounded by the number of requests. -/
theorem retry_budget_bound (h : (system http).Reachable s) :
    (0 ≤ s.budget.tokens ∧ s.budget.tokens ≤ 20) ∧
    (∀ before window rest, s.calls = before ++ window ++ rest →
      (Budget.granted window : ℚ) ≤ 20 + Budget.deposits window / 5) ∧
    (∀ act t, next http s act = some t → t.calls = s.calls ++ [.withdraw false] →
      s.budget.tokens < 1) ∧
    Budget.deposits s.calls = s.requests.length ∧ s.statusRetries ≤ Budget.granted s.calls ∧
    (s.statusRetries : ℚ) ≤ 20 + s.requests.length / 5 := by
  have hs := sound_of_reachable h
  have hratio : (0 : ℚ) ≤ retryBudgetRatio := by norm_num [retryBudgetRatio]
  have hmax : (0 : ℚ) ≤ retryBudgetMax := by norm_num [retryBudgetMax]
  have hfull : 0 ≤ retryBudgetMax ∧ retryBudgetMax ≤ retryBudgetMax := ⟨hmax, le_rfl⟩
  have hwindow : ∀ before window rest, s.calls = before ++ window ++ rest →
      (Budget.granted window : ℚ) ≤ 20 + Budget.deposits window / 5 := by
    intro before window rest hcalls
    have hreplay := hs.replay
    rw [hcalls] at hreplay
    calc (Budget.granted window : ℚ)
        ≤ retryBudgetMax + retryBudgetRatio * Budget.deposits window :=
          Budget.granted_window hratio hfull hreplay
      _ = 20 + Budget.deposits window / 5 := by
          rw [retryBudgetMax, retryBudgetRatio]
          ring
  refine ⟨Budget.replay_bounds hratio hfull hs.replay, hwindow, fun _ _ => tokens_lt_of_refused,
    hs.deposits, hs.statusRetries_le, ?_⟩
  calc (s.statusRetries : ℚ) ≤ Budget.granted s.calls := by exact_mod_cast hs.statusRetries_le
    _ ≤ 20 + Budget.deposits s.calls / 5 := hwindow [] s.calls [] (by simp)
    _ = 20 + s.requests.length / 5 := by rw [hs.deposits]

/-- A request whose first node answers 503 and which is then sent to the second. -/
def retriedOnce : ServiceTraffic Unit :=
  Transition.run (next plainHttp) new
    [.arrive ⟨.get, "/"⟩ [seenBackend "a" none, seenBackend "b" none] .new (.replayable []),
      .turn 0 ⟨id, 0, false, .response 503 (), 0, true⟩,
      .turn 0 ⟨id, 1, false, .response 200 (), 1, true⟩]

theorem retry_budget_bound_retriedOnce :
    (system plainHttp).Reachable retriedOnce ∧ retriedOnce.statusRetries = 1 ∧
      (retriedOnce.statusRetries : ℚ) ≤ 20 + retriedOnce.requests.length / 5 := by
  have hreach : (system plainHttp).Reachable retriedOnce :=
    ⟨new, rfl, Transition.reaches_run (by decide +kernel)⟩
  exact ⟨hreach, by decide +kernel, (retry_budget_bound hreach).2.2.2.2.2⟩

end ServiceTraffic

end Stouter
