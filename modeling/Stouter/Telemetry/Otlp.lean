import Stouter.Serde.Basic
import Stouter.Subscribe.Forward
import Stouter.Telemetry.Exporter

/-! # Spans at the collector

`encode_request` writes a batch of spans as an OTLP request in JSON. Each codec
below has what the exporter writes and what a collector reads by the JSON
mapping of protocol buffers: numbers of 64 bits are decimal texts, a field that
is missing has its default, and an empty parent id is none. The last part
follows the spans of handled requests through the exporter to the collector.
-/

namespace Stouter

open Serde Codec

/-- Nanoseconds since the epoch as a decimal text, none before it. -/
def unixNanos (t : ℤ) : String := toString t.toNat

namespace Otlp

def time : Codec ℤ where
  ser t := .str (unixNanos t)
  de
    | .str s => (Text.decimal? s.toList).bind fun n => if n < 2 ^ 64 then some (n : ℤ) else none
    | _ => none

def int64 : Codec Int64 where
  ser n := .str (toString n.toInt)
  de
    | .str s => (Text.signed? s.toList).bind fun n =>
        if -2 ^ 63 ≤ n ∧ n < 2 ^ 63 then some (Int64.ofInt n) else none
    | _ => none

def attrValueFields : AttrValue → Fields
  | .str s => [always "stringValue" str s]
  | .int n => [always "intValue" int64 n]

def attrValue : Codec AttrValue where
  ser value := .map (present (attrValueFields value))
  de v := do
    let es ← asMap v
    let s ← defaulted (option str) none "stringValue" es
    let n ← defaulted (option int64) none "intValue" es
    match s, n with
    | some s, none => some (.str s)
    | none, some n => some (.int n)
    | _, _ => none

def keyValueFields (attr : String × AttrValue) : Fields :=
  [always "key" str attr.1, always "value" attrValue attr.2]

def keyValue : Codec (String × AttrValue) where
  ser attr := .map (present (keyValueFields attr))
  de v := do
    let es ← asMap v
    let key ← required str "key" es
    let value ← required attrValue "value" es
    return (key, value)

/-- `encode_attributes`. -/
def attributes : Codec Attributes := list keyValue

def spanEventFields (e : SpanEvent) : Fields :=
  [always "timeUnixNano" time e.time, always "name" str e.name,
    always "attributes" attributes e.attributes]

def spanEvent : Codec SpanEvent where
  ser e := .map (present (spanEventFields e))
  de v := do
    let es ← asMap v
    let time ← required time "timeUnixNano" es
    let name ← required str "name" es
    let attributes ← defaulted attributes [] "attributes" es
    return { time, name, attributes }

def kind : Codec SpanKind where
  ser
    | .client => .uint 3
  de
    | .uint 3 => some .client
    | _ => none

/-- Status 2 is an error. -/
def statusFields : Option String → Fields
  | some message => [always "code" u32 2, always "message" str message]
  | none => []

def status : Codec (Option String) where
  ser error := .map (present (statusFields error))
  de v := do
    let es ← asMap v
    let code ← defaulted u32 0 "code" es
    let message ← defaulted str "" "message" es
    return if code = 2 then some message else none

def parentSpanId : Codec (Option String) where
  ser
    | some id => .str id
    | none => .null
  de
    | .str id => some (if id.isEmpty then none else some id)
    | _ => none

def spanFields (span : SpanRecord) : Fields :=
  [always "traceId" str span.traceId, always "spanId" str span.spanId, always "name" str span.name,
    always "kind" kind span.kind, always "startTimeUnixNano" time span.start,
    always "endTimeUnixNano" time span.stop, always "attributes" attributes span.attributes,
    always "status" status span.error,
    skipIf span.parentSpanId.isNone "parentSpanId" parentSpanId span.parentSpanId,
    skipIf span.events.isEmpty "events" (list spanEvent) span.events]

/-- `encode_span`. -/
def span : Codec SpanRecord where
  ser span := .map (present (spanFields span))
  de v := do
    let es ← asMap v
    let traceId ← required str "traceId" es
    let spanId ← required str "spanId" es
    let name ← required str "name" es
    let kind ← required kind "kind" es
    let start ← required time "startTimeUnixNano" es
    let stop ← required time "endTimeUnixNano" es
    let attributes ← defaulted attributes [] "attributes" es
    let error ← defaulted status none "status" es
    let parentSpanId ← defaulted parentSpanId none "parentSpanId" es
    let events ← defaulted (list spanEvent) [] "events" es
    return { traceId, spanId, parentSpanId, name, kind, start, stop, attributes, events, error }

end Otlp

structure ScopeSpans where
  name : String
  version : String
  spans : List SpanRecord
  deriving DecidableEq, Repr

structure ResourceSpans where
  resource : Attributes
  scopeSpans : List ScopeSpans
  deriving DecidableEq, Repr

namespace Otlp

def scopeFields (scope : String × String) : Fields :=
  [always "name" str scope.1, always "version" str scope.2]

def scope : Codec (String × String) where
  ser scope := .map (present (scopeFields scope))
  de v := do
    let es ← asMap v
    let name ← required str "name" es
    let version ← required str "version" es
    return (name, version)

def scopeSpansFields (s : ScopeSpans) : Fields :=
  [always "scope" scope (s.name, s.version), always "spans" (list span) s.spans]

def scopeSpans : Codec ScopeSpans where
  ser s := .map (present (scopeSpansFields s))
  de v := do
    let es ← asMap v
    let scope ← required scope "scope" es
    let spans ← required (list span) "spans" es
    return ⟨scope.1, scope.2, spans⟩

def resourceFields (attrs : Attributes) : Fields := [always "attributes" attributes attrs]

def resource : Codec Attributes where
  ser attrs := .map (present (resourceFields attrs))
  de v := do
    let es ← asMap v
    defaulted attributes [] "attributes" es

def resourceSpansFields (r : ResourceSpans) : Fields :=
  [always "resource" resource r.resource, always "scopeSpans" (list scopeSpans) r.scopeSpans]

def resourceSpans : Codec ResourceSpans where
  ser r := .map (present (resourceSpansFields r))
  de v := do
    let es ← asMap v
    let resource ← required resource "resource" es
    let scopeSpans ← required (list scopeSpans) "scopeSpans" es
    return { resource, scopeSpans }

def requestFields (rs : List ResourceSpans) : Fields :=
  [always "resourceSpans" (list resourceSpans) rs]

def request : Codec (List ResourceSpans) where
  ser rs := .map (present (requestFields rs))
  de v := do
    let es ← asMap v
    required (list resourceSpans) "resourceSpans" es

end Otlp

/-- The request for a batch, with the version of the program. -/
def encodeRequest (version : String) (resource : Attributes) (spans : List SpanRecord) : Value :=
  Otlp.request.ser [⟨resource, [⟨"stouter", version, spans⟩]⟩]

def resourceAttributes (version serviceName nodeId : String) : Attributes :=
  [("service.name", .str serviceName), ("telemetry.sdk.name", .str "stouter"),
    ("telemetry.sdk.language", .str "rust"), ("telemetry.sdk.version", .str version)] ++
  if nodeId.isEmpty then [] else [("service.instance.id", .str nodeId)]

/-- An entry of an object, or null. -/
def index (v : Value) (key : String) : Value :=
  match v with
  | .map es => ((es.reverse.find? fun e => e.1 == key).map Prod.snd).getD .null
  | _ => .null

/-- `str::parse::<u64>`. -/
def parseU64 (s : String) : Option UInt64 :=
  let digits := match s.toList with
    | '+' :: cs => cs
    | cs => cs
  (Text.decimal? digits).bind fun n => if n < 2 ^ 64 then some (UInt64.ofNat n) else none

/-- The spans that a collector says it rejected; there is no value if its answer is not JSON. -/
def rejectedSpans : Option Value → UInt64
  | none => 0
  | some v =>
    match index (index v "partialSuccess") "rejectedSpans" with
    | .str s => (parseU64 s).getD 0
    | .uint n => if n < 2 ^ 64 then UInt64.ofNat n else 0
    | _ => 0

/-! ## What a collector reads -/

namespace Otlp

theorem time_returns {t : ℤ} (h : t < 2 ^ 64) : time.Returns t (max t 0) := by
  have hlt : t.toNat < 2 ^ 64 := by omega
  change (Text.decimal? (toString t.toNat).toList).bind _ = _
  rw [Text.toList_toString_nat, Text.decimal?_toDigits, Option.bind_some, if_pos hlt,
    Int.ofNat_toNat]

theorem int64_lawful : int64.Lawful := by
  intro n
  change (Text.signed? (toString n.toInt).toList).bind _ = _
  rw [Text.signed?_toString, Option.bind_some, if_pos ⟨n.le_toInt, n.toInt_lt⟩, Int64.ofInt_toInt]

theorem int64_nonNull : int64.NonNull := by
  rintro n ⟨⟩

theorem attrValue_lawful : attrValue.Lawful := by
  intro value
  cases value with
  | str s => rfl
  | int n =>
    have hread : defaulted (option int64) none "intValue" (present (attrValueFields (.int n))) =
        some (some n) := option_lawful int64_lawful int64_nonNull (some n)
    apply bind_read rfl
    apply bind_read (a := none) rfl
    apply bind_read hread
    rfl

theorem keyValue_lawful : keyValue.Lawful := by
  intro attr
  have h := holds_present (keyValueFields attr) (by simp [keyValueFields, always])
  simp only [Holds, keyValueFields, List.forall_mem_cons] at h
  obtain ⟨hkey, hvalue, -⟩ := h
  apply bind_read rfl
  apply bind_read (required_always hkey (str_lawful _))
  apply bind_read (required_always hvalue (attrValue_lawful _))
  rfl

theorem attributes_lawful : attributes.Lawful := list_lawful keyValue_lawful

theorem kind_lawful : kind.Lawful := by
  intro k
  cases k
  rfl

theorem status_lawful : status.Lawful := by
  intro error
  cases error <;> rfl

theorem parentSpanId_returns {id : Option String} (hnone : id.isNone = false) (h : id ≠ some "") :
    parentSpanId.Returns id id := by
  cases id with
  | none => cases hnone
  | some id =>
    have hid : id ≠ "" := fun heq => h (congrArg some heq)
    change some (if id.isEmpty then none else some id) = some (some id)
    rw [if_neg (by simpa using hid)]

end Otlp

/-- Times before the epoch are written as the epoch. -/
def SpanEvent.fromEpoch (e : SpanEvent) : SpanEvent := { e with time := max e.time 0 }

def SpanRecord.fromEpoch (span : SpanRecord) : SpanRecord := { span with
  start := max span.start 0
  stop := max span.stop 0
  events := span.events.map SpanEvent.fromEpoch }

def ScopeSpans.fromEpoch (s : ScopeSpans) : ScopeSpans :=
  { s with spans := s.spans.map SpanRecord.fromEpoch }

def ResourceSpans.fromEpoch (r : ResourceSpans) : ResourceSpans :=
  { r with scopeSpans := r.scopeSpans.map ScopeSpans.fromEpoch }

/-- The times are representable and the id of a parent is not empty. -/
structure SpanRecord.Sendable (span : SpanRecord) : Prop where
  start : span.start < 2 ^ 64
  stop : span.stop < 2 ^ 64
  events : ∀ e ∈ span.events, e.time < 2 ^ 64
  parent : span.parentSpanId ≠ some ""

namespace Otlp

theorem spanEvent_returns {e : SpanEvent} (he : e.time < 2 ^ 64) :
    spanEvent.Returns e e.fromEpoch := by
  have h := holds_present (spanEventFields e) (by simp [spanEventFields, always])
  simp only [Holds, spanEventFields, List.forall_mem_cons] at h
  obtain ⟨htime, hname, hattributes, -⟩ := h
  apply bind_read rfl
  apply bind_read (required_always htime (time_returns he))
  apply bind_read (required_always hname (str_lawful _))
  apply bind_read (defaulted_always hattributes (attributes_lawful _))
  rfl

theorem span_returns {x : SpanRecord} (hx : x.Sendable) : span.Returns x x.fromEpoch := by
  have h := holds_present (spanFields x) (by simp [spanFields, always, skipIf])
  simp only [Holds, spanFields, List.forall_mem_cons] at h
  obtain ⟨htrace, hspan, hname, hkind, hstart, hstop, hattributes, hstatus, hparent, hevents, -⟩ :=
    h
  have hread : (list spanEvent).Returns x.events (x.events.map SpanEvent.fromEpoch) :=
    list_returns fun e he => spanEvent_returns (hx.events e he)
  apply bind_read rfl
  apply bind_read (required_always htrace (str_lawful _))
  apply bind_read (required_always hspan (str_lawful _))
  apply bind_read (required_always hname (str_lawful _))
  apply bind_read (required_always hkind (kind_lawful _))
  apply bind_read (required_always hstart (time_returns hx.start))
  apply bind_read (required_always hstop (time_returns hx.stop))
  apply bind_read (defaulted_always hattributes (attributes_lawful _))
  apply bind_read (defaulted_always hstatus (status_lawful _))
  apply bind_read (defaulted_skipIf (y := x.parentSpanId) hparent (by simp)
    fun hnone => parentSpanId_returns hnone hx.parent)
  apply bind_read (defaulted_skipIf hevents (by simp) fun _ => hread)
  rfl

theorem scope_lawful : scope.Lawful := by
  intro s
  have h := holds_present (scopeFields s) (by simp [scopeFields, always])
  simp only [Holds, scopeFields, List.forall_mem_cons] at h
  obtain ⟨hname, hversion, -⟩ := h
  apply bind_read rfl
  apply bind_read (required_always hname (str_lawful _))
  apply bind_read (required_always hversion (str_lawful _))
  rfl

theorem scopeSpans_returns {s : ScopeSpans} (hs : ∀ x ∈ s.spans, x.Sendable) :
    scopeSpans.Returns s s.fromEpoch := by
  have h := holds_present (scopeSpansFields s) (by simp [scopeSpansFields, always])
  simp only [Holds, scopeSpansFields, List.forall_mem_cons] at h
  obtain ⟨hscope, hspans, -⟩ := h
  apply bind_read rfl
  apply bind_read (required_always hscope (scope_lawful _))
  apply bind_read (required_always hspans (list_returns fun x hx => span_returns (hs x hx)))
  rfl

theorem resource_lawful : resource.Lawful := by
  intro attrs
  have h := holds_present (resourceFields attrs) (by simp [resourceFields, always])
  simp only [Holds, resourceFields, List.forall_mem_cons] at h
  apply bind_read rfl
  exact defaulted_always h.1 (attributes_lawful _)

theorem resourceSpans_returns {r : ResourceSpans}
    (hr : ∀ s ∈ r.scopeSpans, ∀ x ∈ s.spans, x.Sendable) :
    resourceSpans.Returns r r.fromEpoch := by
  have h := holds_present (resourceSpansFields r) (by simp [resourceSpansFields, always])
  simp only [Holds, resourceSpansFields, List.forall_mem_cons] at h
  obtain ⟨hattrs, hspans, -⟩ := h
  apply bind_read rfl
  apply bind_read (required_always hattrs (resource_lawful _))
  apply bind_read (required_always hspans (list_returns fun s hs => scopeSpans_returns (hr s hs)))
  rfl

theorem request_returns {rs : List ResourceSpans}
    (hrs : ∀ r ∈ rs, ∀ s ∈ r.scopeSpans, ∀ x ∈ s.spans, x.Sendable) :
    request.Returns rs (rs.map ResourceSpans.fromEpoch) := by
  have h := holds_present (requestFields rs) (by simp [requestFields, always])
  simp only [Holds, requestFields, List.forall_mem_cons] at h
  apply bind_read rfl
  exact required_always h.1 (list_returns fun r hr => resourceSpans_returns (hrs r hr))

def spans (rs : List ResourceSpans) : List SpanRecord :=
  rs.flatMap fun r => r.scopeSpans.flatMap fun s => s.spans

theorem read_encodeRequest (version : String) (attrs : Attributes) {batch : List SpanRecord}
    (hs : ∀ x ∈ batch, x.Sendable) : request.de (encodeRequest version attrs batch) =
      some [⟨attrs, [⟨"stouter", version, batch.map SpanRecord.fromEpoch⟩]⟩] := by
  refine request_returns fun r hr s hmem x hx => hs x ?_
  obtain rfl := List.mem_singleton.mp hr
  obtain rfl := List.mem_singleton.mp hmem
  exact hx

/-! ## What it answers -/

/-- The value is the number, or spells it. -/
inductive Count (n : UInt64) : Value → Prop

  | number : Count n (.uint n.toNat)

  | text : Count n (.str (toString n.toNat))

/-- The collector accepted the request and rejected some of its spans. -/
def Rejects (n : UInt64) (answer : Value) : Prop :=
  ∃ es ps v, answer = .map es ∧ field? "partialSuccess" es = some (some (.map ps)) ∧
    field? "rejectedSpans" ps = some (some v) ∧ Count n v

theorem index_of_field? {es : Entries} {key : String} {v : Value}
    (h : field? key es = some (some v)) : index (.map es) key = v := by
  unfold field? at h
  split at h
  · cases h
  · next e heq =>
    cases h
    rw [index, ← List.head?_filter, List.filter_reverse, heq]
    rfl
  · cases h

theorem parseU64_toString (n : UInt64) : parseU64 (toString n.toNat) = some n := by
  have hplus : '+' ∉ Nat.toDigits 10 n.toNat := by
    intro hmem
    exact absurd (Nat.isDigit_of_mem_toDigits (by decide) (by decide) hmem) (by decide)
  have hdigits : (match (toString n.toNat).toList with
      | '+' :: cs => cs
      | cs => cs) = Nat.toDigits 10 n.toNat := by
    rw [Text.toList_toString_nat]
    split
    · next heq => exact absurd (heq ▸ List.mem_cons_self) hplus
    · rfl
  rw [parseU64, hdigits, Text.decimal?_toDigits, Option.bind_some, if_pos n.toNat_lt,
    UInt64.ofNat_toNat]

theorem rejectedSpans_of_rejects {n : UInt64} {answer : Value} (h : Rejects n answer) :
    rejectedSpans (some answer) = n := by
  obtain ⟨es, ps, v, rfl, hes, hps, hcount⟩ := h
  simp only [rejectedSpans]
  rw [index_of_field? hes, index_of_field? hps]
  cases hcount with
  | number =>
    dsimp only
    rw [if_pos n.toNat_lt, UInt64.ofNat_toNat]
  | text =>
    dsimp only
    rw [parseU64_toString, Option.getD_some]

end Otlp

/-! ## From a request to the collector -/

structure HandleEnv.Timely (env : HandleEnv) : Prop where
  stop : env.startWall + env.elapsed < 2 ^ 64
  events : ∀ i, env.eventWall i < 2 ^ 64

/-- The span was recorded when a proxy handled a request. -/
def Recorded (span : SpanRecord) : Prop :=
  ∃ http st env req r, ∃ proxy : HttpProxy, env.Timely ∧
    proxy.handle http st env req = some r ∧ r.span = some span

theorem spanId_ne_of_fromHeaders {headers : HeaderMap} :
    (TraceContext.fromHeaders headers).map (·.spanId) ≠ some "" := by
  intro h
  obtain ⟨tc, htc, hid⟩ := Option.map_eq_some_iff.mp h
  have hvalid := (TraceContext.Obtained.parsed htc).isValid
  obtain ⟨-, -, hspan, -⟩ := TraceContext.isValid_iff.mp hvalid
  rw [hid] at hspan
  cases hspan

theorem time_of_event? {time : ℤ} {a : Attempt ResponseParts} {e : SpanEvent}
    (h : a.event? time = some e) : e.time = time := by
  unfold Attempt.event? at h
  split at h <;> cases h <;> rfl

theorem Recorded.sendable {span : SpanRecord} (h : Recorded span) : span.Sendable := by
  obtain ⟨http, st, env, req, r, proxy, htimely, hhandle, hspan⟩ := h
  obtain ⟨trace, sent, headers, routed, outcome, -, -, -, -, -, -, hrecord⟩ := handle_cases hhandle
  rw [hspan] at hrecord
  split_ifs at hrecord
  obtain rfl := Option.some.inj hrecord
  have hstop := htimely.stop
  refine ⟨?_, hstop, fun e he => ?_, spanId_ne_of_fromHeaders⟩
  · change env.startWall < 2 ^ 64
    omega
  · obtain ⟨⟨a, i⟩, -, hevent⟩ := List.mem_filterMap.mp he
    rw [time_of_event? hevent]
    exact htimely.events i

/-- What the requests of an exporter say to whoever reads them. -/
def posted (version : String) (attrs : Attributes)
    (requests : List (List SpanRecord × ExportResult)) : List SpanRecord :=
  requests.flatMap fun r =>
    ((Otlp.request.de (encodeRequest version attrs r.1)).map Otlp.spans).getD []

/-- What the collector has read off the requests that it has confirmed. -/
def collected (version : String) (attrs : Attributes) (s : Exporter SpanRecord) :
    List SpanRecord :=
  posted version attrs (s.sent.filter (·.2.isOk))

theorem posted_eq (version : String) (attrs : Attributes)
    {requests : List (List SpanRecord × ExportResult)}
    (hs : ∀ r ∈ requests, ∀ x ∈ r.1, x.Sendable) :
    posted version attrs requests = (requests.map Prod.fst).flatten.map SpanRecord.fromEpoch := by
  have hread : ∀ r ∈ requests,
      ((Otlp.request.de (encodeRequest version attrs r.1)).map Otlp.spans).getD [] =
        r.1.map SpanRecord.fromEpoch := by
    intro r hr
    rw [Otlp.read_encodeRequest version attrs (hs r hr)]
    simp [Otlp.spans]
  rw [posted, List.map_flatten, List.map_map, List.flatMap_def, List.map_congr_left hread]
  rfl

/-- In every run of the exporter on the spans of handled requests, each request it posts is read
as the process and the spans of its batch, and what is posted so far, followed by what is under way,
in the batch and in the queue, are the accepted spans in their order; an exporter that has returned
has posted all of them. A collector has read the spans of the requests that it has confirmed, in
their order, and the others are counted as failed. Its count of rejected spans is understood. -/
theorem collector_reads_spans {s : Exporter SpanRecord} (h : Exporter.system.Reachable s)
    (hs : ∀ x ∈ s.accepted, Recorded x) (version : String) (attrs : Attributes) :
    (∀ r ∈ s.sent, Otlp.request.de (encodeRequest version attrs r.1) =
      some [⟨attrs, [⟨"stouter", version, r.1.map SpanRecord.fromEpoch⟩]⟩]) ∧
    s.accepted.map SpanRecord.fromEpoch = posted version attrs s.sent ++
      (s.inFlight ++ (s.batch ++ Exporter.spansOf s.queue)).map SpanRecord.fromEpoch ∧
    (s.stopped = true → posted version attrs s.sent = s.accepted.map SpanRecord.fromEpoch) ∧
    collected version attrs s = s.confirmed.map SpanRecord.fromEpoch ∧
    (collected version attrs s).Sublist (posted version attrs s.sent) ∧
    (collected version attrs s).length + s.exportFailed = (posted version attrs s.sent).length ∧
    ∀ n answer, Otlp.Rejects n answer → rejectedSpans (some answer) = n := by
  have hsound := Exporter.sound_of_reachable h
  have hsendable : ∀ r ∈ s.sent, ∀ x ∈ r.1, x.Sendable := by
    intro r hr x hx
    refine (hs x ?_).sendable
    rw [hsound.order]
    refine List.mem_append_left _ (List.mem_flatten.mpr ⟨r.1, ?_, hx⟩)
    exact List.mem_map_of_mem hr
  have hposted : posted version attrs s.sent = s.delivered.map SpanRecord.fromEpoch :=
    posted_eq version attrs hsendable
  have hcollected : collected version attrs s = s.confirmed.map SpanRecord.fromEpoch :=
    posted_eq version attrs fun r hr => hsendable r (List.mem_of_mem_filter hr)
  refine ⟨fun r hr => Otlp.read_encodeRequest version attrs (hsendable r hr), ?_,
    fun hstopped => ?_, hcollected, ?_, ?_, fun n answer => Otlp.rejectedSpans_of_rejects⟩
  · rw [hposted, ← List.map_append, ← hsound.order]
  · rw [hposted, hsound.delivered_of_stopped hstopped]
  · rw [hcollected, hposted]
    exact s.confirmed_sublist.map _
  · rw [hcollected, hposted, List.length_map, List.length_map]
    exact (Exporter.counted_of_reachable h).failed

def sentOne (x : SpanRecord) : Exporter SpanRecord :=
  Transition.run Exporter.next .start [.record x, .flush, .recv, .recv, .answer (.ok 0)]

theorem collector_reads_spans_keptPost : ∃ x, Recorded x ∧ x.name = "POST api" ∧
    collected "0.1.0" (resourceAttributes "0.1.0" "stouter" "a") (sentOne x) = [x.fromEpoch] := by
  have hsome : ((apiProxy.handle delimitedHttp apiState answeredEnv keptPost).bind fun r =>
      r.span.map (·.name)) = some "POST api" := by decide +kernel
  obtain ⟨r, hr, hspan⟩ := Option.bind_eq_some_iff.mp hsome
  obtain ⟨x, hx, hname⟩ := Option.map_eq_some_iff.mp hspan
  have hrecorded : Recorded x :=
    ⟨_, _, answeredEnv, _, r, _, ⟨by decide, fun _ => show (1 : ℤ) < 2 ^ 64 by decide⟩, hr, hx⟩
  have hreach : Exporter.system.Reachable (sentOne x) :=
    ⟨_, rfl, Transition.reaches_run rfl⟩
  have haccepted : (sentOne x).accepted = [x] := rfl
  obtain ⟨-, -, -, hcollected, -⟩ := collector_reads_spans hreach
    (by simpa [haccepted] using hrecorded) "0.1.0" (resourceAttributes "0.1.0" "stouter" "a")
  exact ⟨x, hrecorded, hname, hcollected⟩

end Stouter
