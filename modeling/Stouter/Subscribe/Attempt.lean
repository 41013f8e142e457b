import Stouter.Subscribe.Instances

/-! # Attempts and retries

`HttpProxy::attempt` sends a request to up to three nodes. What the rest of
the world does during one turn of its loop is a `Turn`: how other requests
changed the balancer, the time, how the client call ended and what the retry
budget answers. The log keeps one record for each node tried, and the results
here are about that log.
-/

namespace Stouter

def maxTunnelAttempts : ℕ := 3

abbrev StatusCode := UInt16

inductive Method
  | options
  | get
  | post
  | put
  | delete
  | head
  | trace
  | connect
  | patch
  | extension (name : String)
  deriving DecidableEq, Repr

/-- Statuses that mean that another node might serve the request. -/
def isRetryableStatus (status : StatusCode) : Bool :=
  status == 502 || status == 503 || status == 504

/-- Methods that are safe to send twice. -/
def isIdempotent : Method → Bool
  | .get | .head | .options | .put | .delete | .trace => true
  | _ => false

/-- A request body, buffered if it is small enough to be sent again. -/
inductive RequestBody
  | replayable (bytes : List UInt8)
  | stream (body : Option (List UInt8))
  deriving DecidableEq, Repr

namespace RequestBody

def isReplayable : RequestBody → Bool
  | .replayable _ => true
  | .stream _ => false

/-- The body of the next attempt, and what is left of it. -/
def forAttempt : RequestBody → Option (List UInt8) × RequestBody
  | .replayable bytes => (some bytes, .replayable bytes)
  | .stream body => (body, .stream none)

theorem forAttempt_isReplayable (body : RequestBody) :
    body.forAttempt.2.isReplayable = body.isReplayable := by
  cases body <;> rfl

end RequestBody

def hexDigit (n : ℕ) : Char := "0123456789abcdef".toList.getD n '0'

/-- Upstream URI addressing a node, its id hex-encoded into labels of 62 digits. -/
def nodeUri (http : HttpCrate) (nodeId pathAndQuery : String) : Option Uri :=
  let hex := nodeId.toByteArray.data.toList.flatMap fun b =>
    [hexDigit (b.toNat / 16), hexDigit (b.toNat % 16)]
  let labels := (hex.toChunks 62).map String.ofList
  match http.parseUri ("http://" ++ ".".intercalate labels ++ ".stouter" ++ pathAndQuery) with
  | .ok uri => some uri
  | .error _ => none

variable {ρ : Type*}

/-- The parts of a request that decide how it is retried. -/
structure Request where
  method : Method
  pathAndQuery : String

/-- How a call of the client ends when no timeout cuts it off. -/
inductive Reply (ρ : Type*)
  | response (status : StatusCode) (resp : ρ)
  | connectError
  | failure

structure Turn (ρ : Type*) where
  interfere : Balancer → Balancer
  now : Instant
  timedOut : Bool
  reply : Reply ρ
  failedAt : Instant
  withdraw : Bool

inductive Outcome (ρ : Type*)
  | response (status : StatusCode) (resp : ρ) (nodeId : String)
  | error (status : StatusCode) (reason : String)
  deriving DecidableEq

/-- How an attempt ended; `unsent` when the client was not called. -/
inductive AttemptResult (ρ : Type*)
  | response (status : StatusCode) (resp : ρ)
  | connectError
  | failure
  | timeout
  | unsent

/-- One node tried, with the answer of the retry budget if it was asked. -/
structure Attempt (ρ : Type*) where
  node : String
  result : AttemptResult ρ
  withdrawal : Option Bool

abbrev AttemptLog (ρ : Type*) := List (Attempt ρ)

namespace AttemptLog

def tried (log : AttemptLog ρ) : List String := log.map (·.node)

end AttemptLog

def noBackendReachable : Outcome ρ := .error 502 "no_backend_reachable"

/-- Overwriting a fallback drops its slot. -/
def dropFallback : Option (Outcome ρ) → Balancer → Balancer
  | some (.response _ _ nodeId), b => b.dropSlot nodeId
  | _, b => b

/-- A turn breaks out of the loop or goes on to the next one. -/
inductive TurnEnd (ρ : Type*)
  | exit (outcome : Outcome ρ) (log : AttemptLog ρ)
  | again (b : Balancer) (body : RequestBody) (fallback : Option (Outcome ρ)) (log : AttemptLog ρ)

/-- One turn of the loop of `attempt`, after which `left` attempts remain before `log.tried` has
`max_attempts` entries. -/
def attemptTurn (http : HttpCrate) (req : Request) (backends : List Backend) (turn : Turn ρ)
    (left : ℕ) (b : Balancer) (body : RequestBody) (fallback : Option (Outcome ρ))
    (log : AttemptLog ρ) : TurnEnd ρ :=
  match (turn.interfere b).pick backends log.tried turn.now with
  | (.allTried, _) => .exit noBackendReachable log
  | (.atCapacity, _) =>
    if log.isEmpty then .exit (.error 503 "circuit_open") log else .exit noBackendReachable log
  | (.chosen i slot, b) =>
    let nodeId := (backends.get i).node.id
    let ended := fun (result : AttemptResult ρ) (withdrawal : Option Bool) =>
      log ++ [⟨nodeId, result, withdrawal⟩]
    match nodeUri http nodeId req.pathAndQuery with
    | none => .exit noBackendReachable (ended .unsent none)
    | some _ =>
      match body.forAttempt with
      | (none, _) => .exit noBackendReachable (ended .unsent none)
      | (some _, body) =>
        if (backends.get i).requestTimeout.isSome && turn.timedOut then
          .exit (.error 504 "timeout") (ended .timeout none)
        else
          match turn.reply with
          | .response status resp =>
            let b := b.recordSuccess nodeId
            let outcome := .response status resp nodeId
            if !isRetryableStatus status || !isIdempotent req.method || !body.isReplayable ||
                left == 0 then
              .exit outcome (ended (.response status resp) none)
            else if !turn.withdraw then
              .exit outcome (ended (.response status resp) (some false))
            else
              .again (dropFallback fallback b) body (some outcome)
                (ended (.response status resp) (some true))
          | .connectError =>
            let b := (b.recordFailure nodeId turn.failedAt).2
            if !body.isReplayable then .exit noBackendReachable (ended .connectError none)
            else
              -- The slot is released when the turn ends.
              .again (b.dropSlot slot) body fallback (ended .connectError none)
          | .failure => .exit (.error 502 "upstream_error") (ended .failure none)

def attemptLoop (http : HttpCrate) (req : Request) (backends : List Backend) (turns : ℕ → Turn ρ) :
    ℕ → Balancer → RequestBody → Option (Outcome ρ) → AttemptLog ρ →
      Outcome ρ × Option (Outcome ρ) × AttemptLog ρ
  | 0, _, _, fallback, log => (noBackendReachable, fallback, log)
  | left + 1, b, body, fallback, log =>
    match attemptTurn http req backends (turns log.length) left b body fallback log with
    | .exit outcome log => (outcome, fallback, log)
    | .again b body fallback log => attemptLoop http req backends turns left b body fallback log

/-- A backend answer beats an error of the proxy itself. -/
def finish : Outcome ρ → Option (Outcome ρ) → Outcome ρ
  | .error _ _, some fallback => fallback
  | outcome, _ => outcome

/-- A matched route narrows the candidates to its label subset. -/
def narrow (subset : Option Labels) (all : List Backend) : List Backend :=
  match subset with
  | some labels => all.filter fun c => labelsMatch c.labels labels
  | none => all

/-- `HttpProxy::attempt`, for the instances `service_backends` returned. -/
def attempt (http : HttpCrate) (st : SharedState) (serviceName : String) (all : List Backend)
    (req : Request) (body : RequestBody) (subset : Option Labels) (seenAt : Instant)
    (turns : ℕ → Turn ρ) (b : Balancer) : Outcome ρ × AttemptLog ρ :=
  let b := b.retainNodes all
  let candidates := narrow subset all
  if candidates.isEmpty && subset.isSome then (.error 503 "no_route_backend", [])
  else
    let backends := st.preferHealthy candidates serviceName seenAt
    let maxAttempts := min backends.length maxTunnelAttempts
    let (outcome, fallback, log) := attemptLoop http req backends turns maxAttempts b body none []
    (finish outcome fallback, log)

/-! ## What a turn does -/

/-- The attempt ended in a way that lets another one follow. -/
def Attempt.Retried (req : Request) (replayable : Bool) (a : Attempt ρ) : Prop :=
  (a.result = .connectError ∧ a.withdrawal = none ∧ replayable = true) ∨
    ∃ status resp, a.result = .response status resp ∧ a.withdrawal = some true ∧
      isRetryableStatus status = true ∧ isIdempotent req.method = true ∧ replayable = true

def Attempt.response? (a : Attempt ρ) : Option (Outcome ρ) :=
  match a.result with
  | .response status resp => some (.response status resp a.node)
  | _ => none

/-- The budget is asked about responses only. -/
def Attempt.Billed (a : Attempt ρ) : Prop := a.response? = none → a.withdrawal = none

section Turn

variable {http : HttpCrate} {req : Request} {backends : List Backend} {turn : Turn ρ} {left : ℕ}
  {b b' : Balancer} {body body' : RequestBody} {fallback fallback' : Option (Outcome ρ)}
  {log log' : AttemptLog ρ} {outcome : Outcome ρ}

/-- The node of an attempt is one of the backends and was not tried before. -/
def Fresh (backends : List Backend) (log : AttemptLog ρ) (a : Attempt ρ) : Prop :=
  a.node ∉ log.tried ∧ ∃ c ∈ backends, c.node.id = a.node

/-- What one turn can do: give up before choosing a node, end with a last attempt, or go on after
an attempt that may be retried. -/
theorem attemptTurn_cases (http : HttpCrate) (req : Request) (backends : List Backend)
    (turn : Turn ρ) (left : ℕ) (b : Balancer) (body : RequestBody)
    (fallback : Option (Outcome ρ)) (log : AttemptLog ρ) :
    (∃ status reason, attemptTurn http req backends turn left b body fallback log =
      .exit (.error status reason) log) ∨
    (∃ a outcome, Fresh backends log a ∧ a.Billed ∧
      attemptTurn http req backends turn left b body fallback log = .exit outcome (log ++ [a]) ∧
      (a.response? = some outcome ∨
        a.response? = none ∧ ∃ status reason, outcome = .error status reason)) ∨
    ∃ a b' body', Fresh backends log a ∧ a.Billed ∧ a.Retried req body.isReplayable ∧
      body'.isReplayable = body.isReplayable ∧
      attemptTurn http req backends turn left b body fallback log =
        .again b' body' (a.response?.or fallback) (log ++ [a]) := by
  unfold attemptTurn
  rcases hp : (turn.interfere b).pick backends log.tried turn.now with ⟨r, b₁⟩
  cases r with
  | allTried => exact .inl ⟨_, _, rfl⟩
  | atCapacity =>
    dsimp only
    split_ifs
    · exact .inl ⟨_, _, rfl⟩
    · exact .inl ⟨_, _, rfl⟩
  | chosen i slot =>
    right
    have hfresh : ∀ result withdrawal, Fresh backends log
        (⟨(backends.get i).node.id, result, withdrawal⟩ : Attempt ρ) := by
      obtain ⟨he, _⟩ := Balancer.pick_chosen (b := turn.interfere b) (i := i) (by rw [hp])
      exact fun _ _ => ⟨(Balancer.mem_openSet.mp (Balancer.eligible_subset he)).1,
        backends.get i, backends.get_mem i, rfl⟩
    dsimp only
    cases nodeUri http (backends.get i).node.id req.pathAndQuery with
    | none => exact .inl ⟨_, _, hfresh _ _, fun _ => rfl, rfl, .inr ⟨rfl, _, _, rfl⟩⟩
    | some uri =>
      have hrep := body.forAttempt_isReplayable
      rcases hb : body.forAttempt with ⟨_ | bytes, body₁⟩
      · exact .inl ⟨_, _, hfresh _ _, fun _ => rfl, rfl, .inr ⟨rfl, _, _, rfl⟩⟩
      · rw [hb] at hrep
        simp only at hrep ⊢
        by_cases htime : ((backends.get i).requestTimeout.isSome && turn.timedOut) = true
        · rw [if_pos htime]
          exact .inl ⟨_, _, hfresh _ _, fun _ => rfl, rfl, .inr ⟨rfl, _, _, rfl⟩⟩
        · rw [if_neg htime]
          cases turn.reply with
          | failure => exact .inl ⟨_, _, hfresh _ _, fun _ => rfl, rfl, .inr ⟨rfl, _, _, rfl⟩⟩
          | connectError =>
            dsimp only
            split_ifs with hno
            · exact .inl ⟨_, _, hfresh _ _, fun _ => rfl, rfl, .inr ⟨rfl, _, _, rfl⟩⟩
            · refine .inr ⟨_, _, _, hfresh _ _, fun _ => rfl, .inl ⟨rfl, rfl, ?_⟩, hrep, rfl⟩
              simpa [hrep] using hno
          | response status resp =>
            dsimp only
            have hbilled : ∀ withdrawal, Attempt.Billed
                ⟨(backends.get i).node.id, .response status resp, withdrawal⟩ :=
              fun _ hr => by simp [Attempt.response?] at hr
            split_ifs with hstop
            · exact .inl ⟨_, _, hfresh _ _, hbilled _, rfl, .inl rfl⟩
            · exact .inl ⟨_, _, hfresh _ _, hbilled _, rfl, .inl rfl⟩
            · simp only [Bool.or_eq_true, Bool.not_eq_true', not_or, Bool.not_eq_false,
                hrep] at hstop
              refine .inr ⟨_, _, _, hfresh _ _, hbilled _, .inr ⟨status, resp, rfl, rfl, ?_⟩,
                hrep, rfl⟩
              exact ⟨hstop.1.1.1, hstop.1.1.2, hstop.1.2⟩

/-! ## What the loop does -/

theorem Attempt.response?_eq {a : Attempt ρ} (h : a.response? = some outcome) :
    ∃ status resp, a.result = .response status resp ∧ outcome = .response status resp a.node := by
  unfold Attempt.response? at h
  split at h
  · rename_i status resp hr
    exact ⟨status, resp, hr, (Option.some.inj h).symm⟩
  · cases h

def AttemptLog.received (log : AttemptLog ρ) : List (Outcome ρ) := log.filterMap Attempt.response?

/-- A log of distinct backends whose budget answers belong to responses. -/
structure Logged (backends : List Backend) (log : AttemptLog ρ) : Prop where
  nodup : log.tried.Nodup
  known : ∀ id ∈ log.tried, ∃ c ∈ backends, c.node.id = id
  billed : ∀ a ∈ log, a.Billed

theorem Logged.snoc {a : Attempt ρ} (h : Logged backends log) (hf : Fresh backends log a)
    (hb : a.Billed) : Logged backends (log ++ [a]) := by
  have htried : AttemptLog.tried (log ++ [a]) = log.tried ++ [a.node] := by
    simp [AttemptLog.tried]
  constructor
  · rw [htried, List.nodup_append]
    refine ⟨h.nodup, List.nodup_singleton _, ?_⟩
    rintro x hx y hy rfl
    exact hf.1 (List.mem_singleton.mp hy ▸ hx)
  · intro id hid
    rw [htried] at hid
    rcases List.mem_append.mp hid with hid | hid
    · exact h.known id hid
    · rw [List.mem_singleton.mp hid]
      exact hf.2
  · intro x hx
    rcases List.mem_append.mp hx with hx | hx
    · exact h.billed x hx
    · rw [List.mem_singleton.mp hx]
      exact hb

/-- Before a turn: every attempt so far may be retried, and the fallback is the last response. -/
structure Ongoing (req : Request) (replayable : Bool) (backends : List Backend)
    (fallback : Option (Outcome ρ)) (log : AttemptLog ρ) : Prop extends Logged backends log where
  retried : ∀ a ∈ log, a.Retried req replayable
  last : log.received.getLast? = fallback

/-- After the loop: every attempt but the last may be retried, and the outcome is the last
response, or an error if there was none. -/
structure Ended (req : Request) (replayable : Bool) (backends : List Backend)
    (outcome : Outcome ρ) (log : AttemptLog ρ) : Prop extends Logged backends log where
  retried : ∀ a ∈ log.dropLast, a.Retried req replayable
  last : ∀ o, log.received.getLast? = some o → outcome = o
  none : log.received = [] → ∃ status reason, outcome = .error status reason

variable {replayable : Bool}

theorem ongoing_nil (req : Request) (replayable : Bool) :
    Ongoing req replayable backends (none : Option (Outcome ρ)) [] :=
  ⟨⟨List.nodup_nil, by simp [AttemptLog.tried], by simp⟩, by simp, rfl⟩

theorem Ongoing.giveUp (h : Ongoing req replayable backends fallback log) (status : StatusCode)
    (reason : String) :
    Ended req replayable backends (finish (.error status reason) fallback) log := by
  refine ⟨h.toLogged, fun a ha => h.retried a ((List.dropLast_sublist log).subset ha), ?_, ?_⟩
  · intro o ho
    obtain rfl : fallback = some o := h.last.symm.trans ho
    rfl
  · intro hnil
    obtain rfl : fallback = Option.none := by rw [← h.last, hnil]; rfl
    exact ⟨status, reason, rfl⟩

theorem Ongoing.stop {a : Attempt ρ} (h : Ongoing req replayable backends fallback log)
    (hf : Fresh backends log a) (hb : a.Billed)
    (ho : a.response? = some outcome ∨
      a.response? = none ∧ ∃ status reason, outcome = .error status reason) :
    Ended req replayable backends (finish outcome fallback) (log ++ [a]) := by
  have hlogged := h.toLogged.snoc hf hb
  have hretried : ∀ x ∈ (log ++ [a]).dropLast, x.Retried req replayable := by
    rw [List.dropLast_concat]
    exact h.retried
  rcases ho with ho | ⟨hnone, status, reason, rfl⟩
  · obtain ⟨status, resp, _, rfl⟩ := Attempt.response?_eq ho
    have hrec : AttemptLog.received (log ++ [a]) =
        log.received ++ [.response status resp a.node] := by
      simp [AttemptLog.received, ho]
    refine ⟨hlogged, hretried, fun o hl => ?_, fun hnil => ?_⟩
    · rw [hrec, List.getLast?_concat] at hl
      exact Option.some.inj hl
    · simp [hrec] at hnil
  · have hrec : AttemptLog.received (log ++ [a]) = log.received := by
      simp [AttemptLog.received, hnone]
    have hend := h.giveUp status reason
    exact ⟨hlogged, hretried, by rw [hrec]; exact hend.last, by rw [hrec]; exact hend.none⟩

theorem Ongoing.again {a : Attempt ρ} (h : Ongoing req replayable backends fallback log)
    (hf : Fresh backends log a) (hb : a.Billed) (hr : a.Retried req replayable) :
    Ongoing req replayable backends (a.response?.or fallback) (log ++ [a]) := by
  refine ⟨h.toLogged.snoc hf hb, fun x hx => ?_, ?_⟩
  · rcases List.mem_append.mp hx with hx | hx
    · exact h.retried x hx
    · rw [List.mem_singleton.mp hx]
      exact hr
  · cases ho : a.response? with
    | none => simpa [AttemptLog.received, ho] using h.last
    | some o => simp [AttemptLog.received, ho]

/-- The loop makes at most `left` more attempts and ends as it should. -/
theorem attemptLoop_ended (http : HttpCrate) (b : Balancer) (turns : ℕ → Turn ρ) (left : ℕ)
    (h : Ongoing req body.isReplayable backends fallback log) :
    let r := attemptLoop http req backends turns left b body fallback log
    Ended req body.isReplayable backends (finish r.1 r.2.1) r.2.2 ∧
      r.2.2.length ≤ log.length + left := by
  induction left generalizing b body fallback log with
  | zero => exact ⟨h.giveUp _ _, le_refl _⟩
  | succ left ih =>
    dsimp only
    unfold attemptLoop
    rcases attemptTurn_cases http req backends (turns log.length) left b body fallback log with
      ⟨status, reason, ht⟩ | ⟨a, outcome, hf, hb, ht, ho⟩ | ⟨a, b', body', hf, hb, hr, hrep, ht⟩
    · rw [ht]
      exact ⟨h.giveUp status reason, Nat.le_add_right _ _⟩
    · rw [ht]
      refine ⟨h.stop hf hb ho, ?_⟩
      simp
    · rw [ht]
      have hnext := h.again hf hb hr
      rw [← hrep] at hnext ⊢
      obtain ⟨hend, hlen⟩ := ih (b := b') hnext
      refine ⟨hend, hlen.trans ?_⟩
      simp
      omega

end Turn

/-- The client put the request on an established connection. -/
def Attempt.handed (a : Attempt ρ) : Bool :=
  match a.result with
  | .connectError => false
  | .unsent => false
  | _ => true

theorem Attempt.Retried.of_single {req : Request} {replayable : Bool} {a : Attempt ρ}
    (h : a.Retried req replayable)
    (hs : isIdempotent req.method = false ∨ replayable = false) : a.handed = false := by
  rcases h with ⟨hr, _⟩ | ⟨_, _, _, _, _, hi, hrep⟩
  · simp [Attempt.handed, hr]
  · simp [hi, hrep] at hs

theorem handed_le_one {log : AttemptLog ρ} (h : ∀ a ∈ log.dropLast, a.handed = false) :
    (log.filter Attempt.handed).length ≤ 1 := by
  rcases List.eq_nil_or_concat log with rfl | ⟨init, a, rfl⟩
  · simp
  · rw [List.concat_eq_append, List.dropLast_concat] at h
    rw [List.concat_eq_append, List.filter_append,
      List.filter_eq_nil_iff.mpr fun x hx => by simp [h x hx]]
    exact (List.length_filter_le _ _).trans (le_refl _)

theorem mem_narrow {subset : Option Labels} {all : List Backend} {c : Backend} :
    c ∈ narrow subset all ↔
      c ∈ all ∧ ∀ labels, subset = some labels → labelsMatch c.labels labels = true := by
  cases subset <;> simp [narrow]

theorem attempt_ended (http : HttpCrate) (st : SharedState) (serviceName : String)
    (all : List Backend) (req : Request) (body : RequestBody) (subset : Option Labels)
    (seenAt : Instant) (turns : ℕ → Turn ρ) (b : Balancer) :
    let r := attempt http st serviceName all req body subset seenAt turns b
    Ended req body.isReplayable (st.preferHealthy (narrow subset all) serviceName seenAt) r.1 r.2 ∧
      r.2.length ≤ 3 := by
  dsimp only
  unfold attempt
  dsimp only
  split_ifs
  · exact ⟨(ongoing_nil req _).giveUp _ _, by simp⟩
  · obtain ⟨hend, hlen⟩ := attemptLoop_ended http (b.retainNodes all) turns
      (min (st.preferHealthy (narrow subset all) serviceName seenAt).length maxTunnelAttempts)
      (ongoing_nil req body.isReplayable)
    refine ⟨hend, hlen.trans ?_⟩
    rw [List.length_nil, Nat.zero_add]
    exact Nat.min_le_right _ _

/-- Retry safety: distinct nodes of the subset, at most three; one connection for a request that
may not be sent twice; another attempt only after a connect error, which costs nothing, or after a
retryable response paid for by its own withdrawal; and the last response, if there is one, is the
outcome. -/
theorem retry_safety (http : HttpCrate) (st : SharedState) (serviceName : String)
    (all : List Backend) (req : Request) (body : RequestBody) (subset : Option Labels)
    (seenAt : Instant) (turns : ℕ → Turn ρ) (b : Balancer) :
    let r := attempt http st serviceName all req body subset seenAt turns b
    (r.2.tried.Nodup ∧ r.2.tried.length ≤ 3 ∧ ∀ id ∈ r.2.tried, ∃ c ∈ all, c.node.id = id ∧
      ∀ labels, subset = some labels → labelsMatch c.labels labels = true) ∧
    (isIdempotent req.method = false ∨ body.isReplayable = false →
      (r.2.filter Attempt.handed).length ≤ 1) ∧
    (∀ before a after, r.2 = before ++ a :: after → after ≠ [] →
      a.result = .connectError ∨ ∃ status resp, a.result = .response status resp ∧
        isRetryableStatus status = true ∧ a.withdrawal = some true) ∧
    (∀ a ∈ r.2, a.result = .connectError → a.withdrawal = none) ∧
    (∀ o, r.2.received.getLast? = some o → r.1 = o) ∧
    (r.2.received = [] → ∃ status reason, r.1 = .error status reason) := by
  intro r
  obtain ⟨hend, hlen⟩ := attempt_ended http st serviceName all req body subset seenAt turns b
  refine ⟨⟨hend.nodup, by simpa [AttemptLog.tried] using hlen, fun id hid => ?_⟩, fun hs => ?_,
    fun before a after hlog hne => ?_, fun a ha hc => ?_, hend.last, hend.none⟩
  · obtain ⟨c, hc, rfl⟩ := hend.known id hid
    obtain ⟨hall, hl⟩ := mem_narrow.mp (SharedState.preferHealthy_sublist.subset hc)
    exact ⟨c, hall, rfl, hl⟩
  · exact handed_le_one fun a ha => (hend.retried a ha).of_single hs
  · have hmem : a ∈ r.2.dropLast := by
      rw [hlog, List.dropLast_append_of_ne_nil (by simp), List.dropLast_cons_of_ne_nil hne]
      simp
    rcases hend.retried a hmem with ⟨hr, _⟩ | ⟨status, resp, hr, hw, hstat, _⟩
    · exact .inl hr
    · exact .inr ⟨status, resp, hr, hstat, hw⟩
  · exact hend.billed a ha (by simp [Attempt.response?, hc])

-- A 503 paid for by the budget is the answer when the second node fails after sending.
example :
    (attempt plainHttp quietState "api" [seenBackend "a" none, seenBackend "b" none] ⟨.get, "/"⟩
      (.replayable []) none 0
      (fun n => ⟨id, n, false, if n = 0 then .response 503 () else .failure, n, true⟩) .new).1 =
        .response 503 () "a" := by decide

end Stouter
