import Stouter.Subscribe.Registry
import Stouter.Subscribe.Routing
import Stouter.Subscribe.TraceContext

/-! # A request through the proxy

`HttpProxy::handle` takes a request apart, decides its route, calls the client
of the chosen nodes and puts the answer together. The calls of the client are
read off the turns of `attempt`. Each of them carries the whole request to the
node it was decided for: method, target, body and end-to-end headers as they
came, under the trace of the request.
-/

namespace Stouter

def Method.asStr : Method → String
  | .options => "OPTIONS"
  | .get => "GET"
  | .post => "POST"
  | .put => "PUT"
  | .delete => "DELETE"
  | .head => "HEAD"
  | .trace => "TRACE"
  | .connect => "CONNECT"
  | .patch => "PATCH"
  | .extension name => name

/-- The body of a request as it comes from the client, who may break off. -/
structure IncomingBody where
  bytes : List UInt8
  isEndStream : Bool
  upper : Option ℕ
  broken : Bool
  ended : isEndStream = true → bytes = []

def maxBufferedBody : ℕ := 64 * 1024

def RequestBody.prepare (body : IncomingBody) : Option RequestBody :=
  if body.isEndStream then some (.replayable [])
  else if body.upper.any (· ≤ maxBufferedBody) then
    if body.broken then none else some (.replayable body.bytes)
  else some (.stream (some body.bytes))

/-- A request; its URI has a host in the absolute form. -/
structure Inbound where
  method : Method
  uriHost : Option String
  path : String
  pathAndQuery : Option String
  headers : HeaderMap
  body : IncomingBody

/-- What the client is called with. -/
structure Upstream where
  method : Method
  uri : Uri
  headers : HeaderMap
  body : List UInt8

structure ResponseParts where
  headers : HeaderMap
  body : List UInt8

structure Response where
  status : StatusCode
  headers : HeaderMap
  body : List UInt8

namespace HeaderName

def host : HeaderName := ⟨"host", by decide⟩

def contentType : HeaderName := ⟨"content-type", by decide⟩

/-- Names why the proxy itself answered. -/
def stouterError : HeaderName := ⟨"x-stouter-error", by decide⟩

end HeaderName

def HeaderMap.new : HeaderMap where
  fields := ∅
  nonempty _ vs h := absurd (h.symm.trans (AList.lookup_empty _)) (Option.some_ne_none vs)

/-- `HeaderValue::from_static`, for texts that are visible. -/
def HeaderValue.fromStatic (s : String) : HeaderValue := (HeaderValue.fromStr s).getD .upgrade

def errorResponse (status : StatusCode) (reason : String) : Response where
  status
  headers := (HeaderMap.new.insert .stouterError (.fromStatic reason)).insert .contentType
    (.fromStatic "text/plain")
  body := (reason ++ "\n").toByteArray.data.toList

inductive SpanKind
  | client
  deriving DecidableEq, Repr

inductive AttrValue
  | str (s : String)
  | int (n : Int64)
  deriving DecidableEq, Repr

abbrev Attributes := List (String × AttrValue)

/-- Times are in nanoseconds from the Unix epoch. -/
structure SpanEvent where
  time : ℤ
  name : String
  attributes : Attributes
  deriving DecidableEq, Repr

/-- A finished span, from `start` to `stop`. -/
structure SpanRecord where
  traceId : String
  spanId : String
  parentSpanId : Option String
  name : String
  kind : SpanKind
  start : ℤ
  stop : ℤ
  attributes : Attributes
  events : List SpanEvent
  error : Option String
  deriving DecidableEq, Repr

/-- The shared state with the routes of each service. -/
structure RoutedState extends SharedState where
  routes : HashMap String (List Route)

/-- The environment of one request: whether the tracer samples a new trace, if there is one, what
the random source returns, and the times; `eventWall` is when an attempt was logged. -/
structure HandleEnv where
  tracer : Option Bool
  traceDraws : List (List UInt8)
  spanDraws : List (List UInt8)
  childDraws : List (List UInt8)
  traceSized : ∀ raw ∈ traceDraws, raw.length = 16
  spanSized : ∀ raw ∈ spanDraws, raw.length = 8
  childSized : ∀ raw ∈ childDraws, raw.length = 8
  ticket : ℕ
  startWall : ℤ
  elapsed : ℕ
  eventWall : ℕ → ℤ
  seenAt : Instant
  turns : ℕ → Turn ResponseParts

/-- The headers of the request that is passed on. -/
def forwardedHeaders (serviceName : String) (upstreamTrace : TraceContext) (headers : HeaderMap) :
    Option HeaderMap :=
  let stripped := headers.stripHopByHop headers.isUpgrade
  let named :=
    if stripped.containsKey .host then stripped
    else match HeaderValue.fromStr serviceName with
      | some host => stripped.insert .host host
      | none => stripped
  (HeaderValue.fromStr upstreamTrace.toHeader).map (named.insert .traceparent)

/-! ## The calls of the client -/

section Calls

variable {ρ : Type*}

/-- The call of the client in one turn of `attemptTurn`. -/
def turnCall (http : HttpCrate) (req : Request) (headers : HeaderMap) (backends : List Backend)
    (turn : Turn ρ) (b : Balancer) (body : RequestBody) (log : AttemptLog ρ) : Option Upstream :=
  match (turn.interfere b).pick backends log.tried turn.now with
  | (.chosen i _, _) => do
    let uri ← nodeUri http (backends.get i).node.id req.pathAndQuery
    let bytes ← body.forAttempt.1
    return ⟨req.method, uri, headers, bytes⟩
  | _ => none

def loopCalls (http : HttpCrate) (req : Request) (headers : HeaderMap) (backends : List Backend)
    (turns : ℕ → Turn ρ) :
    ℕ → Balancer → RequestBody → Option (Outcome ρ) → AttemptLog ρ → List Upstream
  | 0, _, _, _, _ => []
  | left + 1, b, body, fallback, log =>
    let turn := turns log.length
    (turnCall http req headers backends turn b body log).toList ++
      match attemptTurn http req backends turn left b body fallback log with
      | .exit _ _ => []
      | .again b body fallback log =>
        loopCalls http req headers backends turns left b body fallback log

def attemptCalls (http : HttpCrate) (st : SharedState) (serviceName : String) (all : List Backend)
    (req : Request) (headers : HeaderMap) (body : RequestBody) (subset : Option Labels)
    (seenAt : Instant) (turns : ℕ → Turn ρ) (b : Balancer) : List Upstream :=
  let candidates := narrow subset all
  if candidates.isEmpty && subset.isSome then []
  else
    let backends := st.preferHealthy candidates serviceName seenAt
    loopCalls http req headers backends turns (min backends.length maxTunnelAttempts)
      (b.retainNodes all) body none []

def Attempt.called (a : Attempt ρ) : Bool :=
  match a.result with
  | .unsent => false
  | _ => true

/-- The event of an attempt that could not connect, or whose response was not the last. -/
def Attempt.event? (time : ℤ) (a : Attempt ρ) : Option SpanEvent :=
  match a.result, a.withdrawal with
  | .response status _, some true => some ⟨time, "attempt_failed",
      [("stouter.node", .str a.node),
        ("http.response.status_code", .int (Int64.ofNat status.toNat))]⟩
  | .connectError, _ => some ⟨time, "attempt_failed",
      [("stouter.node", .str a.node), ("error.type", .str "connect_failed")]⟩
  | _, _ => none

end Calls

/-! ## The handler -/

structure Handled where
  response : Response
  /-- A task joins the two sides. -/
  upgraded : Bool
  calls : List Upstream
  log : AttemptLog ResponseParts
  span : Option SpanRecord

/-- The response to the client, the node that is logged with it and the proxy's own error. -/
def respond (log : AttemptLog ResponseParts) :
    Outcome ResponseParts → Response × Option String × Option String
  | .response status resp nodeId =>
    let headers := if status = 101 then resp.headers else resp.headers.stripHopByHop false
    (⟨status, headers, resp.body⟩, some nodeId, none)
  | .error status reason => (errorResponse status reason, log.tried.getLast?, some reason)

def spanRecord (serviceName routeLabel : String) (env : HandleEnv) (req : Inbound)
    (incoming : Option TraceContext) (trace upstreamTrace : TraceContext)
    (log : AttemptLog ResponseParts) (status : StatusCode) (node proxyError : Option String) :
    SpanRecord :=
  let error := proxyError.or (if 400 ≤ status then some (toString status) else none)
  { traceId := trace.traceId
    -- The id sent upstream, so that the span of the backend is a child of this one.
    spanId := upstreamTrace.spanId
    parentSpanId := incoming.map (·.spanId)
    name := req.method.asStr ++ " " ++ serviceName
    kind := .client
    start := env.startWall
    stop := env.startWall + env.elapsed
    attributes :=
      [("http.request.method", .str req.method.asStr), ("url.path", .str req.path),
        ("url.scheme", .str "http"), ("network.protocol.version", .str "1.1"),
        ("http.response.status_code", .int (Int64.ofNat status.toNat)),
        ("stouter.service", .str serviceName), ("stouter.route", .str routeLabel),
        ("stouter.attempts", .int (Int64.ofNat log.tried.length))] ++
      node.toList.map (fun node => ("server.address", .str node)) ++
      error.toList.map fun error => ("error.type", .str error)
    events := log.zipIdx.filterMap fun a => a.1.event? (env.eventWall a.2)
    error }

/-- The part of `handle` between routing and response: the outcome, the log and the calls. -/
def HttpProxy.send (http : HttpCrate) (st : RoutedState) (proxy : HttpProxy) (env : HandleEnv)
    (req : Inbound) (headers : HeaderMap) (subset : Option Labels) :
    Outcome ResponseParts × AttemptLog ResponseParts × List Upstream :=
  match RequestBody.prepare req.body with
  | none => (.error 400 "bad_request_body", [], [])
  | some body =>
    let all := st.serviceBackends proxy.serviceName
    let target : Request := ⟨req.method, req.pathAndQuery.getD "/"⟩
    let (outcome, log) := attempt http st.toSharedState proxy.serviceName all target body subset
      env.seenAt env.turns proxy.balancer
    (outcome, log, attemptCalls http st.toSharedState proxy.serviceName all target headers body
      subset env.seenAt env.turns proxy.balancer)

/-- `HttpProxy::handle`. There is no result when it panics, or while the random source returns
nothing but zeros. -/
def HttpProxy.handle (http : HttpCrate) (st : RoutedState) (proxy : HttpProxy) (env : HandleEnv)
    (req : Inbound) : Option Handled := do
  let incoming := TraceContext.fromHeaders req.headers
  let trace ← incoming.or
    (TraceContext.newRoot (env.tracer.getD true) env.traceDraws env.spanDraws)
  let upstreamTrace ← trace.child env.childDraws
  let headers ← forwardedHeaders proxy.serviceName upstreamTrace req.headers
  let routed ← (selectRoute env.ticket ((st.routes.lookup proxy.serviceName).getD [])
    req.method.asStr req.path headers).toOption
  let (outcome, log, calls) := proxy.send http st env req headers (routed.map (·.labels))
  let (response, node, proxyError) := respond log outcome
  return {
    response
    upgraded := req.headers.isUpgrade && response.status == 101
    calls
    log
    span := if env.tracer.isSome && trace.isSampled then
        some (spanRecord proxy.serviceName ((routed.map (·.label)).getD "default") env req incoming
          trace upstreamTrace log response.status node proxyError)
      else none }

/-! ## What is passed on -/

section Headers

variable {serviceName : String} {upstreamTrace : TraceContext} {headers forwarded : HeaderMap}
  {n : HeaderName}

/-- What becomes of the headers of a request on their way to a backend. -/
structure Forwarded (serviceName : String) (headers forwarded : HeaderMap) : Prop where
  kept : ∀ n, n ≠ .traceparent → n.text ∉ HeaderMap.hopByHop → n.text ∉ headers.connectionTokens →
    headers.getAll n ≠ [] → forwarded.getAll n = headers.getAll n
  dropped : ∀ n, n ≠ .traceparent → n ≠ .host →
    n.text ∈ HeaderMap.hopByHop ∨ n.text ∈ headers.connectionTokens →
    headers.isUpgrade = false ∨ n ≠ .connection ∧ n ≠ .upgrade → forwarded.getAll n = []
  added : ∀ n, n ≠ .traceparent → n ≠ .host → headers.getAll n = [] → forwarded.getAll n = []
  host : ∀ v, HeaderValue.fromStr serviceName = some v → headers.getAll .host = [] →
    forwarded.getAll .host = [v]
  upgrade : forwarded.isUpgrade = headers.isUpgrade

theorem getAll_forwardedHeaders
    (h : forwardedHeaders serviceName upstreamTrace headers = some forwarded)
    (hn : n ≠ .traceparent) :
    forwarded.getAll n =
      if n = .host ∧ (headers.stripHopByHop headers.isUpgrade).getAll .host = [] then
        (HeaderValue.fromStr serviceName).toList
      else (headers.stripHopByHop headers.isUpgrade).getAll n := by
  obtain ⟨value, -, rfl⟩ := Option.map_eq_some_iff.mp h
  rw [HeaderMap.getAll_insert, if_neg hn]
  by_cases hhost : (headers.stripHopByHop headers.isUpgrade).getAll .host = []
  · have hkey : ¬ (headers.stripHopByHop headers.isUpgrade).containsKey .host = true := by
      rw [HeaderMap.containsKey_iff, not_not]
      exact hhost
    rw [if_neg hkey]
    cases HeaderValue.fromStr serviceName with
    | none =>
      dsimp only
      split_ifs with hcase
      · rw [hcase.1, hhost]
        rfl
      · rfl
    | some v =>
      dsimp only
      rw [HeaderMap.getAll_insert]
      simp only [hhost, and_true]
      rfl
  · rw [if_pos (HeaderMap.containsKey_iff.mpr hhost), if_neg fun hcase => hhost hcase.2]

theorem getAll_stripHopByHop_of_ne (keep : Bool) (headers : HeaderMap)
    (hn : keep = false ∨ n ≠ .connection ∧ n ≠ .upgrade) :
    (headers.stripHopByHop keep).getAll n =
      if n.text ∈ HeaderMap.hopByHop ∨ n.text ∈ headers.connectionTokens then []
      else headers.getAll n := by
  cases keep with
  | false => exact HeaderMap.getAll_stripHopByHop headers n
  | true =>
    obtain ⟨hconnection, hupgrade⟩ := hn.resolve_left (by simp)
    rw [HeaderMap.getAll_stripHopByHop_upgrade, ← HeaderMap.getAll_stripHopByHop]
    cases headers.get .upgrade with
    | none => rfl
    | some value => simp only [if_neg hconnection, if_neg hupgrade]

/-- An upgrade is asked for in two headers. -/
theorem isUpgrade_of_getAll (hc : forwarded.getAll .connection = headers.getAll .connection)
    (hu : forwarded.getAll .upgrade = headers.getAll .upgrade) :
    forwarded.isUpgrade = headers.isUpgrade := by
  have hkey : forwarded.containsKey .upgrade = headers.containsKey .upgrade := by
    rw [Bool.eq_iff_iff, HeaderMap.containsKey_iff, HeaderMap.containsKey_iff, hu]
  rw [HeaderMap.isUpgrade, HeaderMap.isUpgrade, hkey, HeaderMap.connectionTokens,
    HeaderMap.connectionTokens, hc]

theorem getAll_ne_nil_of_isUpgrade (h : headers.isUpgrade = true) :
    headers.getAll .connection ≠ [] ∧ headers.getAll .upgrade ≠ [] := by
  obtain ⟨hkey, htoken⟩ := Bool.and_eq_true_iff.mp h
  refine ⟨fun hnil => ?_, HeaderMap.containsKey_iff.mp hkey⟩
  simp [HeaderMap.connectionTokens, hnil] at htoken

theorem forwarded_of_forwardedHeaders
    (h : forwardedHeaders serviceName upstreamTrace headers = some forwarded) :
    Forwarded serviceName headers forwarded := by
  have hget : ∀ m, m ≠ .traceparent → m ≠ .host →
      forwarded.getAll m = (headers.stripHopByHop headers.isUpgrade).getAll m := by
    intro m htrace hhost
    rw [getAll_forwardedHeaders h htrace, if_neg fun hcase => hhost hcase.1]
  -- An upgrade keeps its two headers, which are hop-by-hop.
  have hother : ∀ m : HeaderName, m.text ∉ HeaderMap.hopByHop → m ≠ .connection ∧ m ≠ .upgrade := by
    intro m hm
    constructor
    · rintro rfl
      exact hm (by decide)
    · rintro rfl
      exact hm (by decide)
  constructor
  · intro n htrace hhop hnamed hne
    have hstripped : (headers.stripHopByHop headers.isUpgrade).getAll n = headers.getAll n := by
      rw [getAll_stripHopByHop_of_ne _ _ (.inr (hother n hhop)), if_neg (by simp [hhop, hnamed])]
    rw [getAll_forwardedHeaders h htrace, if_neg, hstripped]
    rintro ⟨rfl, hnil⟩
    exact hne (hstripped.symm.trans hnil)
  · intro n htrace hhost hgone hup
    rw [hget n htrace hhost, getAll_stripHopByHop_of_ne _ _ hup, if_pos hgone]
  · intro n htrace hhost hnil
    rw [hget n htrace hhost]
    have hup : headers.isUpgrade = false ∨ n ≠ .connection ∧ n ≠ .upgrade := by
      by_contra hcon
      push Not at hcon
      obtain ⟨hup, hn⟩ := hcon
      obtain ⟨hconnection, hupgrade⟩ :=
        getAll_ne_nil_of_isUpgrade (Bool.eq_true_of_not_eq_false hup)
      by_cases hc : n = .connection
      · exact hconnection (hc ▸ hnil)
      · exact hupgrade (hn hc ▸ hnil)
    rw [getAll_stripHopByHop_of_ne _ _ hup, hnil, ite_self]
  · intro v hv hnil
    have hstripped : (headers.stripHopByHop headers.isUpgrade).getAll .host = [] := by
      rw [getAll_stripHopByHop_of_ne _ _ (.inr (by decide)), hnil, ite_self]
    rw [getAll_forwardedHeaders h (by decide), if_pos ⟨rfl, hstripped⟩, hv]
    rfl
  · rw [isUpgrade_of_getAll (hget _ (by decide) (by decide)) (hget _ (by decide) (by decide)),
      HeaderMap.isUpgrade_stripHopByHop]
    unfold HeaderMap.isUpgrade
    cases headers.containsKey .upgrade <;> simp

theorem fromHeaders_forwardedHeaders (htrace : upstreamTrace.isValid = true)
    (h : forwardedHeaders serviceName upstreamTrace headers = some forwarded) :
    TraceContext.fromHeaders forwarded = some upstreamTrace := by
  obtain ⟨value, hvalue, rfl⟩ := Option.map_eq_some_iff.mp h
  obtain ⟨value', hvalue', hread⟩ := TraceContext.fromHeaders_toHeader _ htrace
  obtain rfl : value = value' := Option.some.inj (hvalue.symm.trans hvalue')
  exact hread

end Headers

/-! ## Calls and attempts -/

section Made

variable {ρ : Type*} {http : HttpCrate} {req : Request} {headers : HeaderMap}
  {backends : List Backend} {body : RequestBody} {bytes : List UInt8}

structure Made (http : HttpCrate) (req : Request) (headers : HeaderMap) (bytes : List UInt8)
    (call : Upstream) (a : Attempt ρ) : Prop where
  uri : nodeUri http a.node req.pathAndQuery = some call.uri
  method : call.method = req.method
  headers : call.headers = headers
  body : call.body = bytes

/-- A body that is either all of `bytes` or has been sent already. -/
def RequestBody.Offers (body : RequestBody) (bytes : List UInt8) : Prop :=
  ∀ sent, body.forAttempt.1 = some sent → sent = bytes

theorem RequestBody.Offers.again (h : body.Offers bytes) : body.forAttempt.2.Offers bytes := by
  cases body with
  | replayable sent => exact h
  | stream sent =>
    intro sent' hsent
    cases hsent

/-- A turn gives up before it has a node, or adds an attempt whose call is that of the turn. -/
theorem turn_calls (headers : HeaderMap) (turn : Turn ρ) (left : ℕ) (b : Balancer)
    (hbody : body.Offers bytes) (fallback : Option (Outcome ρ)) (log : AttemptLog ρ) :
    (∃ outcome, attemptTurn http req backends turn left b body fallback log = .exit outcome log ∧
      turnCall http req headers backends turn b body log = none) ∨
    ∃ a, ((∃ outcome, attemptTurn http req backends turn left b body fallback log =
        .exit outcome (log ++ [a])) ∨
      ∃ b' fallback', attemptTurn http req backends turn left b body fallback log =
        .again b' body.forAttempt.2 fallback' (log ++ [a])) ∧
      List.Forall₂ (Made http req headers bytes)
        (turnCall http req headers backends turn b body log).toList
        ([a].filter Attempt.called) := by
  unfold attemptTurn turnCall
  rcases (turn.interfere b).pick backends log.tried turn.now with ⟨r, b₁⟩
  cases r with
  | allTried => exact .inl ⟨_, rfl, rfl⟩
  | atCapacity =>
    dsimp only
    split_ifs
    · exact .inl ⟨_, rfl, rfl⟩
    · exact .inl ⟨_, rfl, rfl⟩
  | chosen i slot =>
    right
    dsimp only
    cases huri : nodeUri http (backends.get i).node.id req.pathAndQuery with
    | none => exact ⟨_, .inl ⟨_, rfl⟩, .nil⟩
    | some uri =>
      rcases hsent : body.forAttempt with ⟨_ | sent, rest⟩
      · exact ⟨_, .inl ⟨_, rfl⟩, .nil⟩
      · obtain rfl := hbody sent (by rw [hsent])
        have hmade : ∀ a : Attempt ρ, a.node = (backends.get i).node.id →
            Made http req headers sent ⟨req.method, uri, headers, sent⟩ a := by
          intro a ha
          exact ⟨ha ▸ huri, rfl, rfl, rfl⟩
        dsimp only
        by_cases htime : ((backends.get i).requestTimeout.isSome && turn.timedOut) = true
        · rw [if_pos htime]
          exact ⟨_, .inl ⟨_, rfl⟩, .cons (hmade _ rfl) .nil⟩
        · rw [if_neg htime]
          cases turn.reply with
          | failure => exact ⟨_, .inl ⟨_, rfl⟩, .cons (hmade _ rfl) .nil⟩
          | connectError =>
            dsimp only
            split_ifs
            · exact ⟨_, .inl ⟨_, rfl⟩, .cons (hmade _ rfl) .nil⟩
            · exact ⟨_, .inr ⟨_, _, rfl⟩, .cons (hmade _ rfl) .nil⟩
          | response status resp =>
            dsimp only
            split_ifs
            · exact ⟨_, .inl ⟨_, rfl⟩, .cons (hmade _ rfl) .nil⟩
            · exact ⟨_, .inl ⟨_, rfl⟩, .cons (hmade _ rfl) .nil⟩
            · exact ⟨_, .inr ⟨_, _, rfl⟩, .cons (hmade _ rfl) .nil⟩

/-- The calls of the loop are those of the attempts it adds to the log. -/
theorem loop_calls (headers : HeaderMap) (turns : ℕ → Turn ρ) (left : ℕ) (b : Balancer)
    (hbody : body.Offers bytes) (fallback : Option (Outcome ρ)) (log : AttemptLog ρ) :
    ∃ more, (attemptLoop http req backends turns left b body fallback log).2.2 = log ++ more ∧
      List.Forall₂ (Made http req headers bytes)
        (loopCalls http req headers backends turns left b body fallback log)
        (more.filter Attempt.called) := by
  induction left generalizing b body fallback log with
  | zero => exact ⟨[], (List.append_nil log).symm, .nil⟩
  | succ left ih =>
    unfold attemptLoop loopCalls
    dsimp only
    rcases turn_calls headers (turns log.length) left b hbody fallback log with
      ⟨outcome, hturn, hcall⟩ | ⟨a, ⟨outcome, hturn⟩ | ⟨b', fallback', hturn⟩, hcall⟩
    · rw [hturn, hcall]
      exact ⟨[], (List.append_nil log).symm, .nil⟩
    · rw [hturn]
      refine ⟨[a], rfl, ?_⟩
      simpa using hcall
    · rw [hturn]
      obtain ⟨more, hlog, hmore⟩ := ih b' hbody.again fallback' (log ++ [a])
      refine ⟨[a] ++ more, by rw [hlog, List.append_assoc], ?_⟩
      rw [List.filter_append]
      exact List.rel_append hcall hmore

theorem attempt_calls (http : HttpCrate) (st : SharedState) (serviceName : String)
    (all : List Backend) (req : Request) (headers : HeaderMap) (hbody : body.Offers bytes)
    (subset : Option Labels) (seenAt : Instant) (turns : ℕ → Turn ρ) (b : Balancer) :
    List.Forall₂ (Made http req headers bytes)
      (attemptCalls http st serviceName all req headers body subset seenAt turns b)
      ((attempt http st serviceName all req body subset seenAt turns b).2.filter
        Attempt.called) := by
  unfold attemptCalls attempt
  dsimp only
  split_ifs
  · exact .nil
  · obtain ⟨more, hlog, hmore⟩ := loop_calls headers turns _ (b.retainNodes all) hbody none []
    rw [hlog]
    exact hmore

end Made

/-! ## The request as a whole -/

section Handle

variable {http : HttpCrate} {st : RoutedState} {proxy : HttpProxy} {env : HandleEnv} {req : Inbound}
  {r : Handled}

theorem offers_of_prepare {body : RequestBody} (h : RequestBody.prepare req.body = some body) :
    body.Offers req.body.bytes := by
  unfold RequestBody.prepare at h
  split_ifs at h with hend
  · obtain rfl := Option.some.inj h
    rintro sent ⟨⟩
    exact (req.body.ended hend).symm
  · obtain rfl := Option.some.inj h
    rintro sent ⟨⟩
    rfl
  · obtain rfl := Option.some.inj h
    rintro sent ⟨⟩
    rfl

/-- The attempts of a request, with their calls and the outcome they lead to. -/
structure Sent (http : HttpCrate) (st : RoutedState) (proxy : HttpProxy) (req : Inbound)
    (headers : HeaderMap) (subset : Option Labels) (outcome : Outcome ResponseParts)
    (log : AttemptLog ResponseParts) (calls : List Upstream) : Prop where
  made : List.Forall₂ (Made http ⟨req.method, req.pathAndQuery.getD "/"⟩ headers req.body.bytes)
    calls (log.filter Attempt.called)
  known : ∀ a ∈ log, ∃ c ∈ st.serviceBackends proxy.serviceName, c.node.id = a.node ∧
    ∀ labels, subset = some labels → labelsMatch c.labels labels = true
  last : ∀ o, log.received.getLast? = some o → outcome = o
  none : log.received = [] → ∃ status reason, outcome = .error status reason

theorem sent_of_send {headers : HeaderMap} {subset : Option Labels}
    {outcome : Outcome ResponseParts} {log : AttemptLog ResponseParts} {calls : List Upstream}
    (h : proxy.send http st env req headers subset = (outcome, log, calls)) :
    Sent http st proxy req headers subset outcome log calls := by
  unfold HttpProxy.send at h
  cases hbody : RequestBody.prepare req.body with
  | none =>
    rw [hbody] at h
    cases h
    exact ⟨.nil, by simp, by simp [AttemptLog.received], fun _ => ⟨_, _, rfl⟩⟩
  | some body =>
    rw [hbody] at h
    cases h
    obtain ⟨hend, -⟩ := attempt_ended http st.toSharedState proxy.serviceName
      (st.serviceBackends proxy.serviceName) ⟨req.method, req.pathAndQuery.getD "/"⟩ body
      subset env.seenAt env.turns proxy.balancer
    refine ⟨attempt_calls http st.toSharedState proxy.serviceName _ _ headers
      (offers_of_prepare hbody) subset env.seenAt env.turns proxy.balancer, fun a ha => ?_,
      hend.last, hend.none⟩
    obtain ⟨c, hc, hid⟩ := hend.known a.node (List.mem_map.mpr ⟨a, ha, rfl⟩)
    obtain ⟨hall, hlabels⟩ := mem_narrow.mp (SharedState.preferHealthy_sublist.subset hc)
    exact ⟨c, hall, hid, hlabels⟩

/-- The call carries the request to the node of the attempt. -/
structure Carries (req : Inbound) (headers : HeaderMap) (call : Upstream)
    (a : Attempt ResponseParts) : Prop where
  node : nodeIdFromUri call.uri = some a.node
  target : call.uri.pathAndQuery = some (req.pathAndQuery.getD "/")
  method : call.method = req.method
  headers : call.headers = headers
  body : call.body = req.body.bytes

theorem Made.carries {headers : HeaderMap} {call : Upstream} {a : Attempt ResponseParts}
    (hh : http.EndsAuthority) (htarget : IsTarget (req.pathAndQuery.getD "/"))
    (hne : req.pathAndQuery.getD "/" ≠ "*")
    (h : Made http ⟨req.method, req.pathAndQuery.getD "/"⟩ headers req.body.bytes call a) :
    Carries req headers call a := by
  obtain ⟨hhost, hkept⟩ := nodeUri_target hh htarget hne h.uri
  exact ⟨nodeIdFromUri_nodeHost hhost, hkept, h.method, h.headers, h.body⟩

/-- The first route that fits decides which labels a backend has to carry. -/
theorem labels_of_selectRoute {ticket k : ℕ} {routes : List Route} {method path : String}
    {headers : HeaderMap} {routed : Option RoutedTo} {route : Route}
    (h : selectRoute ticket routes method path headers = .ok routed)
    (hfit : FirstFit routes method path headers k route) :
    ∃ backend ∈ route.backends, routed.map (·.labels) = some backend.labels := by
  rw [selectRoute_of_firstFit ticket hfit] at h
  cases hfirst : route.backends[0]? with
  | none =>
    rw [hfirst] at h
    cases h
  | some first =>
    rw [hfirst] at h
    obtain rfl := Except.ok.inj h
    have hmem := List.mem_of_getElem? hfirst
    cases hfound : findBackend (if route.total = 0 then 0 else ticket) route.backends with
    | none => exact ⟨first, hmem, rfl⟩
    | some backend => exact ⟨backend, mem_of_findBackend hfound, rfl⟩

theorem handle_cases (h : proxy.handle http st env req = some r) :
    ∃ trace upstreamTrace headers routed outcome,
      (TraceContext.fromHeaders req.headers).or
        (TraceContext.newRoot (env.tracer.getD true) env.traceDraws env.spanDraws) = some trace ∧
      trace.child env.childDraws = some upstreamTrace ∧
      forwardedHeaders proxy.serviceName upstreamTrace req.headers = some headers ∧
      selectRoute env.ticket ((st.routes.lookup proxy.serviceName).getD []) req.method.asStr
        req.path headers = .ok routed ∧
      proxy.send http st env req headers (routed.map (·.labels)) = (outcome, r.log, r.calls) ∧
      r.response = (respond r.log outcome).1 ∧
      r.span = if env.tracer.isSome && trace.isSampled then
          some (spanRecord proxy.serviceName ((routed.map (·.label)).getD "default") env req
            (TraceContext.fromHeaders req.headers) trace upstreamTrace r.log r.response.status
            (respond r.log outcome).2.1 (respond r.log outcome).2.2)
        else none := by
  obtain ⟨trace, htrace, h⟩ := Option.bind_eq_some_iff.mp h
  obtain ⟨upstreamTrace, hchild, h⟩ := Option.bind_eq_some_iff.mp h
  obtain ⟨headers, hheaders, h⟩ := Option.bind_eq_some_iff.mp h
  obtain ⟨routed, hrouted, h⟩ := Option.bind_eq_some_iff.mp h
  have hroute : selectRoute env.ticket ((st.routes.lookup proxy.serviceName).getD [])
      req.method.asStr req.path headers = .ok routed := by
    cases hselect : selectRoute env.ticket ((st.routes.lookup proxy.serviceName).getD [])
        req.method.asStr req.path headers with
    | error err =>
      rw [hselect] at hrouted
      cases hrouted
    | ok routed' =>
      rw [hselect] at hrouted
      rw [Option.some.inj hrouted]
  rcases hsend : proxy.send http st env req headers (routed.map (·.labels)) with
    ⟨outcome, log, calls⟩
  rw [hsend] at h
  obtain rfl := Option.some.inj h
  exact ⟨trace, upstreamTrace, headers, routed, outcome, htrace, hchild, hheaders, hroute, hsend,
    rfl, rfl⟩

/-- Whatever nodes a request is sent to, each of them is an instance of the service, with the
labels of the first route that fits; it gets the whole request, under one trace, which is that of
the request, and a span that the proxy has drawn; this span is recorded, between the caller's and
the backend's; and the client gets the last response, or an error of the proxy if there was none. -/
theorem forwarded_exact (hh : http.EndsAuthority) (htarget : IsTarget (req.pathAndQuery.getD "/"))
    (hne : req.pathAndQuery.getD "/" ≠ "*") (h : proxy.handle http st env req = some r) :
    ∃ headers sent, Forwarded proxy.serviceName req.headers headers ∧
      TraceContext.fromHeaders headers = some sent ∧
      (∀ t, TraceContext.fromHeaders req.headers = some t →
        sent.traceId = t.traceId ∧ sent.flags = t.flags) ∧
      TraceContext.Drawn env.childDraws sent.spanId ∧
      List.Forall₂ (Carries req headers) r.calls (r.log.filter Attempt.called) ∧
      (∀ a ∈ r.log, ∃ c ∈ st.serviceBackends proxy.serviceName, c.node.id = a.node ∧
        ∀ k route, FirstFit ((st.routes.lookup proxy.serviceName).getD []) req.method.asStr
          req.path headers k route →
          ∃ backend ∈ route.backends, labelsMatch c.labels backend.labels = true) ∧
      (r.span.isSome = (env.tracer.isSome && sent.isSampled)) ∧
      (∀ span, r.span = some span → span.traceId = sent.traceId ∧ span.spanId = sent.spanId ∧
        span.parentSpanId = (TraceContext.fromHeaders req.headers).map (·.spanId)) ∧
      (∀ status resp node, r.log.received.getLast? = some (.response status resp node) →
        r.response = ⟨status, if status = 101 then resp.headers else
          resp.headers.stripHopByHop false, resp.body⟩) ∧
      (r.log.received = [] → ∃ status reason, r.response = errorResponse status reason) := by
  obtain ⟨trace, sent, headers, routed, outcome, htrace, hchild, hheaders, hroute, hsend, hresponse,
    hspan⟩ := handle_cases h
  have hobtained : TraceContext.Obtained trace := by
    rcases Option.or_eq_some_iff.mp htrace with hparsed | ⟨-, hroot⟩
    · exact .parsed hparsed
    · exact .started hroot env.traceSized env.spanSized
  obtain ⟨hvalid, htraceId, hflags⟩ := TraceContext.isValid_child hobtained.isValid hchild
    env.childSized
  have hsampled : sent.isSampled = trace.isSampled := by
    rw [TraceContext.isSampled, TraceContext.isSampled, hflags]
  have hsent := sent_of_send hsend
  refine ⟨headers, sent, forwarded_of_forwardedHeaders hheaders,
    fromHeaders_forwardedHeaders hvalid hheaders, ?_, TraceContext.drawn_of_child hchild, ?_, ?_,
    ?_, ?_, ?_, ?_⟩
  · intro t ht
    rw [ht, Option.some_or] at htrace
    obtain rfl := Option.some.inj htrace
    exact ⟨htraceId, hflags⟩
  · exact hsent.made.imp fun call a hmade => hmade.carries hh htarget hne
  · intro a ha
    obtain ⟨c, hc, hid, hlabels⟩ := hsent.known a ha
    refine ⟨c, hc, hid, fun k route hfit => ?_⟩
    obtain ⟨backend, hmem, hsubset⟩ := labels_of_selectRoute hroute hfit
    exact ⟨backend, hmem, hlabels _ hsubset⟩
  · rw [hspan, hsampled]
    split_ifs with hrecord
    · rw [hrecord]
      rfl
    · rw [Bool.eq_false_of_not_eq_true hrecord]
      rfl
  · intro span heq
    rw [hspan] at heq
    split_ifs at heq
    obtain rfl := Option.some.inj heq
    exact ⟨htraceId.symm, rfl, rfl⟩
  · intro status resp node hlast
    rw [hresponse, hsent.last _ hlast]
    rfl
  · intro hnil
    obtain ⟨status, reason, rfl⟩ := hsent.none hnil
    exact ⟨status, reason, hresponse⟩

end Handle

/-- The service `api` has an instance on one node and no routes. -/
def apiState : RoutedState where
  toSharedState := ⟨.default,
    (∅ : NodeMap).insert "a" ⟨"a", "10.0.0.1:80", none, some 0, .default⟩,
    (∅ : HashMap (String × String) Service).insert ("a", "api")
      ⟨"api", "a", 80, [], 1, none, .http, none, none, ∅, ∅, none⟩, .default⟩
  routes := ∅

def apiProxy : HttpProxy := ⟨"api", .new⟩

/-- A request of three bytes that asks to keep the connection. -/
def keptPost : Inbound where
  method := .post
  uriHost := none
  path := "/items"
  pathAndQuery := some "/items?all"
  headers := HeaderMap.new.insert .connection (.fromStatic "keep-alive")
  body := ⟨[1, 2, 3], false, some 3, false, by decide⟩

def answeredEnv : HandleEnv where
  tracer := some true
  traceDraws := [List.replicate 16 7]
  spanDraws := [List.replicate 8 1]
  childDraws := [List.replicate 8 2]
  traceSized := by decide
  spanSized := by decide
  childSized := by decide
  ticket := 0
  startWall := 0
  elapsed := 5
  eventWall _ := 1
  seenAt := 0
  turns _ := ⟨id, 1, false, .response 201 ⟨.new, [4]⟩, 1, true⟩

theorem forwarded_exact_keptPost :
    ∃ r, apiProxy.handle delimitedHttp apiState answeredEnv keptPost = some r ∧
      r.calls.length = 1 ∧ r.response.status = 201 ∧
        ∃ headers, Forwarded "api" keptPost.headers headers ∧
          List.Forall₂ (Carries keptPost headers) r.calls (r.log.filter Attempt.called) := by
  have hsome : ((apiProxy.handle delimitedHttp apiState answeredEnv keptPost).map fun r =>
      (r.calls.length, r.response.status)) = some (1, 201) := by decide +kernel
  obtain ⟨r, hr, heq⟩ := Option.map_eq_some_iff.mp hsome
  obtain ⟨hcalls, hstatus⟩ := Prod.mk.inj heq
  obtain ⟨headers, sent, hheaders, -, -, -, hcarries, -⟩ :=
    forwarded_exact delimitedHttp_endsAuthority (.inr ⟨by decide, .inl (by decide)⟩) (by decide) hr
  exact ⟨r, hr, hcalls, hstatus, headers, hheaders, hcarries⟩

end Stouter
