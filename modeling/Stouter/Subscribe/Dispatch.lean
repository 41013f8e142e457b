import Stouter.Subscribe.Forward
import Stouter.Subscribe.HostResolution
import Stouter.Subscribe.ServiceIndex

/-! # The shared listener

`dispatch` hands a request of the shared HTTP listener to the proxy of the
service its host names. The host is that of the URL, or else of the `Host`
header, which may have a port. `RawHost` and `Spells` say which texts name which
host.
-/

namespace Stouter

/-- The text before the port of a `Host` header; an IPv6 literal has colons of its own. -/
def hostOfHeader (value : String) : Option String :=
  match value.toList with
  | '[' :: rest => (Text.split ']' (String.ofList rest)).head?.map fun inner => "[" ++ inner ++ "]"
  | _ => (Text.split ':' value).head?

/-- The host of the URL, or else of the `Host` header. -/
def rawHost (req : Inbound) : Option String :=
  req.uriHost.or (((req.headers.get .host).bind HeaderValue.toStr).bind hostOfHeader)

/-- The host a request is for, in lowercase, without port or trailing dots. -/
def requestHost (req : Inbound) : Option String :=
  (rawHost req).bind fun raw =>
    let host := Text.lower (Text.trimEnd '.' raw)
    if host.isEmpty then none else some host

/-- A request is answered by the listener itself or handed to the proxy of a service. -/
inductive Dispatched
  | rejected (response : Response)
  | handed (service : String)

def Dispatched.reject (status : StatusCode) (reason : String) : Dispatched :=
  .rejected (errorResponse status reason)

def dispatch (st : SharedState) (dc : DynamicConfig) (req : Inbound) : Dispatched :=
  -- The payload of a tunnel is encrypted from end to end: there is nothing to route on.
  if req.method = .connect then .reject 501 "connect_not_supported"
  else
    match requestHost req with
    | none => .reject 400 "missing_host"
    | some host =>
      match dc.resolveService host st.config.subscribeFilter with
      | none => .reject 404 "unknown_service"
      | some service =>
        if !st.serviceIsHttp service then .reject 501 "service_not_http" else .handed service

/-! ## Spellings of a host -/

variable {req : Inbound} {host raw text : String}

/-- The text is the host in any case, followed by any number of dots. -/
def Spells (host text : String) : Prop :=
  host ≠ "" ∧ ∃ stem k, Text.lower stem = host ∧ stem.toList.getLast? ≠ some '.' ∧
    text.toList = stem.toList ++ List.replicate k '.'

/-- The value of a `Host` header: an IPv6 literal in brackets or a text without colons, and
whatever comes after it. -/
inductive HostText : String → String → Prop

  | literal {inner : String} (rest : String) : ']' ∉ inner.toList →
      HostText ("[" ++ inner ++ "]" ++ rest) ("[" ++ inner ++ "]")

  | unclosed {inner : String} : ']' ∉ inner.toList → HostText ("[" ++ inner) ("[" ++ inner ++ "]")

  | ported {name : String} (port : String) : name.toList.head? ≠ some '[' → ':' ∉ name.toList →
      HostText (name ++ ":" ++ port) name

  | plain {name : String} : name.toList.head? ≠ some '[' → ':' ∉ name.toList → HostText name name

/-- Where the host of a request is read: in its URL, or else in its first `Host` header. -/
inductive RawHost (req : Inbound) : String → Prop

  | url {raw : String} : req.uriHost = some raw → RawHost req raw

  | header {value : HeaderValue} {text raw : String} : req.uriHost = none →
      req.headers.get .host = some value → value.toStr = some text → HostText text raw →
      RawHost req raw

theorem head?_split {sep : Char} {part : String} :
    (Text.split sep text).head? = some part ↔ sep ∉ part.toList ∧
      (text = part ∨ ∃ rest, text = part ++ String.singleton sep ++ rest) := by
  constructor
  · intro h
    obtain ⟨parts, hsplit⟩ := List.head?_eq_some_iff.mp h
    obtain ⟨hpart, ⟨-, rfl⟩ | ⟨rest, htext, -⟩⟩ := Text.split_eq_cons.mp hsplit
    · exact ⟨hpart, .inl rfl⟩
    · exact ⟨hpart, .inr ⟨rest, String.toList_injective (by simp [htext])⟩⟩
  · rintro ⟨hpart, rfl | ⟨rest, rfl⟩⟩
    · rw [Text.split_of_not_mem hpart]
      rfl
    · rw [Text.split_append hpart]
      rfl

theorem hostOfHeader_bracket (rest : String) : hostOfHeader ("[" ++ rest) =
    (Text.split ']' rest).head?.map fun inner => "[" ++ inner ++ "]" := by
  have htext : ("[" ++ rest).toList = '[' :: rest.toList := by simp
  simp only [hostOfHeader, htext, String.ofList_toList]

theorem bracket_append (inner rest : String) :
    "[" ++ (inner ++ String.singleton ']' ++ rest) = "[" ++ inner ++ "]" ++ rest := by
  apply String.toList_injective
  simp

theorem hostOfHeader_of_ne (h : text.toList.head? ≠ some '[') :
    hostOfHeader text = (Text.split ':' text).head? := by
  unfold hostOfHeader
  split
  · next rest htext => simp [htext] at h
  · rfl

theorem head?_ported {name : String} (hname : name.toList.head? ≠ some '[') (port : String) :
    (name ++ ":" ++ port).toList.head? ≠ some '[' := by
  cases hlist : name.toList with
  | nil => simp [hlist]
  | cons c cs =>
    rw [hlist] at hname
    simpa [hlist] using hname

theorem hostOfHeader_eq_some : hostOfHeader text = some raw ↔ HostText text raw := by
  constructor
  · intro h
    by_cases hbracket : text.toList.head? = some '['
    · obtain ⟨cs, hcs⟩ := List.head?_eq_some_iff.mp hbracket
      obtain ⟨rest, rfl⟩ : ∃ rest, text = "[" ++ rest :=
        ⟨String.ofList cs, String.toList_injective (by simp [hcs])⟩
      rw [hostOfHeader_bracket] at h
      obtain ⟨inner, hinner, rfl⟩ := Option.map_eq_some_iff.mp h
      obtain ⟨hclosed, rfl | ⟨more, rfl⟩⟩ := head?_split.mp hinner
      · exact .unclosed hclosed
      · rw [bracket_append]
        exact .literal more hclosed
    · rw [hostOfHeader_of_ne hbracket] at h
      obtain ⟨hcolon, rfl | ⟨port, rfl⟩⟩ := head?_split.mp h
      · exact .plain hbracket hcolon
      · refine .ported port (fun hname => hbracket ?_) hcolon
        obtain ⟨cs, hcs⟩ := List.head?_eq_some_iff.mp hname
        simp [hcs]
  · intro h
    cases h with
    | @literal inner rest hinner =>
      rw [← bracket_append, hostOfHeader_bracket, head?_split.mpr ⟨hinner, .inr ⟨rest, rfl⟩⟩]
      rfl
    | unclosed hinner =>
      rw [hostOfHeader_bracket, head?_split.mpr ⟨hinner, .inl rfl⟩]
      rfl
    | ported port hname hcolon =>
      rw [hostOfHeader_of_ne (head?_ported hname port)]
      exact head?_split.mpr ⟨hcolon, .inr ⟨port, rfl⟩⟩
    | plain hname hcolon =>
      rw [hostOfHeader_of_ne hname]
      exact head?_split.mpr ⟨hcolon, .inl rfl⟩

theorem spells_iff : Spells host raw ↔ host ≠ "" ∧ Text.lower (Text.trimEnd '.' raw) = host := by
  constructor
  · rintro ⟨hne, stem, k, hlower, hlast, htext⟩
    exact ⟨hne, by rw [Text.trimEnd_eq_iff.mpr ⟨hlast, k, htext⟩, hlower]⟩
  · rintro ⟨hne, hlower⟩
    obtain ⟨hlast, k, htext⟩ := Text.trimEnd_eq_iff.mp (rfl : Text.trimEnd '.' raw = _)
    exact ⟨hne, _, k, hlower, hlast, htext⟩

theorem rawHost_eq_some : rawHost req = some raw ↔ RawHost req raw := by
  constructor
  · intro h
    rcases Option.or_eq_some_iff.mp h with huri | ⟨huri, hheader⟩
    · exact .url huri
    · obtain ⟨text, htext, hraw⟩ := Option.bind_eq_some_iff.mp hheader
      obtain ⟨value, hvalue, hstr⟩ := Option.bind_eq_some_iff.mp htext
      exact .header huri hvalue hstr (hostOfHeader_eq_some.mp hraw)
  · intro h
    cases h with
    | url huri => rw [rawHost, huri, Option.some_or]
    | header huri hvalue hstr hraw =>
      rw [rawHost, huri, Option.none_or, hvalue, Option.bind_some, hstr, Option.bind_some,
        hostOfHeader_eq_some.mpr hraw]

theorem requestHost_eq_some :
    requestHost req = some host ↔ ∃ raw, RawHost req raw ∧ Spells host raw := by
  rw [requestHost, Option.bind_eq_some_iff]
  refine exists_congr fun raw => and_congr rawHost_eq_some ?_
  rw [spells_iff]
  dsimp only
  constructor
  · intro h
    split_ifs at h with hempty
    obtain rfl := Option.some.inj h
    exact ⟨by simpa using hempty, rfl⟩
  · rintro ⟨hne, rfl⟩
    rw [if_neg (by simpa using hne)]

/-! ## The service of a request -/

variable {st : SharedState} {dc : DynamicConfig} {filter : Option SubscribeFilter}
  {service : String}

/-- The first of the services with the property. -/
def First (p : Service → Bool) (services : List Service) (s : Service) : Prop :=
  p s = true ∧ ∃ before after, services = before ++ s :: after ∧ ∀ t ∈ before, (!p t) = true

/-- The host is the name of the service or else one of its domains, where a filter leaves it
visible. -/
def Resolves (dc : DynamicConfig) (filter : Option SubscribeFilter) (host service : String) :
    Prop :=
  ∃ s, s.name = service ∧ (First (DynamicConfig.namedBy host) (dc.visible filter) s ∨
    (∀ t ∈ dc.visible filter, DynamicConfig.namedBy host t = false) ∧
      First (DynamicConfig.servesDomain host) (dc.visible filter) s)

theorem resolveService_eq_some :
    dc.resolveService host filter = some service ↔ Resolves dc filter host service := by
  unfold DynamicConfig.resolveService Resolves
  cases hnamed : (dc.visible filter).find? (DynamicConfig.namedBy host) with
  | some t =>
    have hfirst := List.find?_eq_some_iff_append.mp hnamed
    constructor
    · intro h
      exact ⟨t, Option.some.inj h, .inl hfirst⟩
    · rintro ⟨s, rfl, hs | ⟨hnone, -⟩⟩
      · rw [List.find?_eq_some_iff_append.mpr hs] at hnamed
        rw [Option.some.inj hnamed]
      · have hmem := List.mem_of_find?_eq_some hnamed
        rw [hnone t hmem] at hfirst
        exact absurd hfirst.1 Bool.false_ne_true
  | none =>
    have hnone : ∀ t ∈ dc.visible filter, DynamicConfig.namedBy host t = false := by
      intro t ht
      simpa using List.find?_eq_none.mp hnamed t ht
    rw [Option.map_eq_some_iff]
    constructor
    · rintro ⟨s, hs, rfl⟩
      exact ⟨s, rfl, .inr ⟨hnone, List.find?_eq_some_iff_append.mp hs⟩⟩
    · rintro ⟨s, rfl, hs | ⟨-, hs⟩⟩
      · rw [List.find?_eq_some_iff_append.mpr hs] at hnamed
        cases hnamed
      · exact ⟨s, List.find?_eq_some_iff_append.mpr hs, rfl⟩

theorem dispatch_of_requestHost {req' : Inbound} (hm : req.method ≠ .connect)
    (hm' : req'.method ≠ .connect) (h : requestHost req = requestHost req') :
    dispatch st dc req = dispatch st dc req' := by
  rw [dispatch, dispatch, if_neg hm, if_neg hm', h]

/-- A request is handed to a service exactly if it is no tunnel, every instance of the service
speaks HTTP and its host, spelled in whatever way, names the service before all others; all
spellings of a host are handled alike; and each of the other answers names its reason. -/
theorem dispatch_exact (st : SharedState) (dc : DynamicConfig) (req : Inbound) :
    (∀ service, dispatch st dc req = .handed service ↔
      req.method ≠ .connect ∧ st.serviceIsHttp service = true ∧
        ∃ raw host, RawHost req raw ∧ Spells host raw ∧
          Resolves dc st.config.subscribeFilter host service) ∧
    (∀ req' raw raw' host, req.method ≠ .connect → req'.method ≠ .connect → RawHost req raw →
      RawHost req' raw' → Spells host raw → Spells host raw' →
      dispatch st dc req = dispatch st dc req') ∧
    ∀ response, dispatch st dc req = .rejected response →
      ∃ answer ∈ [(501, "connect_not_supported"), (400, "missing_host"), (404, "unknown_service"),
        (501, "service_not_http")], response = errorResponse answer.1 answer.2 := by
  refine ⟨fun service => ?_, ?_, fun response h => ?_⟩
  · constructor
    · intro h
      unfold dispatch at h
      split_ifs at h with hm
      · cases h
      · cases hhost : requestHost req with
        | none =>
          rw [hhost] at h
          cases h
        | some host =>
          rw [hhost] at h
          cases hservice : dc.resolveService host st.config.subscribeFilter with
          | none =>
            simp only [hservice] at h
            cases h
          | some found =>
            simp only [hservice] at h
            split_ifs at h with hhttp
            · cases h
            · cases h
              obtain ⟨raw, hraw, hspells⟩ := requestHost_eq_some.mp hhost
              exact ⟨hm, by simpa using hhttp, raw, host, hraw, hspells,
                resolveService_eq_some.mp hservice⟩
    · rintro ⟨hm, hhttp, raw, host, hraw, hspells, hresolves⟩
      have hhost : requestHost req = some host := requestHost_eq_some.mpr ⟨raw, hraw, hspells⟩
      simp only [dispatch, if_neg hm, hhost, resolveService_eq_some.mpr hresolves, hhttp,
        Bool.not_true, Bool.false_eq_true, if_false]
  · intro req' raw raw' host hm hm' hraw hraw' hspells hspells'
    apply dispatch_of_requestHost hm hm'
    rw [requestHost_eq_some.mpr ⟨raw, hraw, hspells⟩,
      requestHost_eq_some.mpr ⟨raw', hraw', hspells'⟩]
  · unfold dispatch at h
    split_ifs at h
    · cases h
      exact ⟨_, List.mem_cons_self, rfl⟩
    · split at h
      · cases h
        exact ⟨(400, "missing_host"), by simp, rfl⟩
      · split at h
        · cases h
          exact ⟨(404, "unknown_service"), by simp, rfl⟩
        · split_ifs at h
          cases h
          exact ⟨(501, "service_not_http"), by simp, rfl⟩

def hosted (text : String) : Inbound :=
  { keptPost with headers := HeaderMap.new.insert .host (.fromStatic text) }

def apiDynamic : DynamicConfig :=
  { DynamicConfig.default with
    serviceGroups := [⟨"app", [⟨"api", "a", 80, [], 1, none, .http, none, none, ∅, ∅, none⟩]⟩] }

/-- With a port and a dot in the header, or in the URL alone. -/
theorem dispatch_exact_apiSpelled :
    dispatch apiState.toSharedState apiDynamic (hosted "Api.:15001") = .handed "api" ∧
      dispatch apiState.toSharedState apiDynamic (hosted "Api.:15001") =
        dispatch apiState.toSharedState apiDynamic { keptPost with uriHost := some "API" } := by
  have hspells : Spells "api" "Api." := ⟨by decide, "Api", 1, by decide, by decide, by decide⟩
  have hurl : Spells "api" "API" := ⟨by decide, "API", 0, by decide, by decide, by decide⟩
  have hraw : RawHost (hosted "Api.:15001") "Api." :=
    .header rfl rfl (by decide) (.ported "15001" (by decide) (by decide))
  obtain ⟨hhanded, halike, -⟩ :=
    dispatch_exact apiState.toSharedState apiDynamic (hosted "Api.:15001")
  refine ⟨(hhanded "api").mpr ⟨by decide, by decide +kernel, "Api.", "api", hraw, hspells, ?_⟩,
    halike { keptPost with uriHost := some "API" } "Api." "API" "api" (by decide) (by decide) hraw
      (.url rfl) hspells hurl⟩
  exact ⟨⟨"api", "a", 80, [], 1, none, .http, none, none, ∅, ∅, none⟩, rfl,
    .inl ⟨by decide, [], [], rfl, by simp⟩⟩

end Stouter
