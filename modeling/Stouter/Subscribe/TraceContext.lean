import Stouter.Subscribe.Headers
import Stouter.Subscribe.NodeAuthority

/-! # Trace context

The proxy carries the `traceparent` header of a request forward with a span id
of its own. Parsing splits the trimmed text at hyphens and checks the parts;
`fromHeaders_iff` says which texts that accepts. What the proxy sends upstream
is accepted in turn, with the same trace and the same flags.
-/

namespace Stouter

/-- The parts of a W3C `traceparent` header the proxy carries forward. -/
structure TraceContext where
  traceId : String
  spanId : String
  flags : String
  deriving DecidableEq

namespace TraceContext

def isHexChar (c : Char) : Bool := ('0' ≤ c && c ≤ '9') || ('a' ≤ c && c ≤ 'f')

def isHex (s : String) (len : ℕ) : Bool := s.toList.length == len && s.toList.all isHexChar

def nonZero (s : String) : Bool := s.toList.any (· != '0')

/-- A trace id, a span id and flags as the header has them. -/
def isValid (tc : TraceContext) : Bool :=
  isHex tc.traceId 32 && nonZero tc.traceId && isHex tc.spanId 16 && nonZero tc.spanId &&
    isHex tc.flags 2

/-- Parse a version-00-compatible `traceparent`. The only white space in a value that can be read as
text are blanks. -/
def parse (value : String) : Option TraceContext :=
  match Text.split '-' (Text.trim value) with
  | version :: traceId :: spanId :: flags :: rest =>
    -- Future versions may append fields; version 00 has exactly four.
    if version = "00" ∧ rest ≠ [] then none
    else
      let tc : TraceContext := ⟨traceId, spanId, flags⟩
      if isHex version 2 ∧ version ≠ "ff" ∧ tc.isValid then some tc else none
  | _ => none

def fromHeaders (headers : HeaderMap) : Option TraceContext :=
  (headers.getStr "traceparent").bind parse

/-- The bytes of the first draw that is not all zeros, as lowercase hex; `none` while the loop has
not had one. -/
def randomHex (draws : List (List UInt8)) : Option String :=
  (draws.find? fun raw => raw.any (· != 0)).map fun raw => String.ofList (hexDigits raw)

/-- Start a new trace, flagged sampled or not. -/
def newRoot (sampled : Bool) (traceDraws spanDraws : List (List UInt8)) : Option TraceContext := do
  let traceId ← randomHex traceDraws
  let spanId ← randomHex spanDraws
  return ⟨traceId, spanId, if sampled then "01" else "00"⟩

/-- `u8::from_str_radix(s, 16)`. -/
def flagByte (s : List Char) : Option ℕ :=
  let digits := match s with
    | '+' :: c :: cs => c :: cs
    | _ => s
  if digits.isEmpty then none
  else digits.foldlM (fun n c => (toDigit16 c).bind fun d =>
    if n * 16 + d ≤ 255 then some (n * 16 + d) else none) 0

/-- The W3C `sampled` flag. -/
def isSampled (tc : TraceContext) : Bool := (flagByte tc.flags.toList).any (· % 2 == 1)

/-- Same trace, new span id: the proxy's hop to the upstream. -/
def child (tc : TraceContext) (draws : List (List UInt8)) : Option TraceContext :=
  (randomHex draws).map fun spanId => { tc with spanId }

def toHeader (tc : TraceContext) : String :=
  "00-" ++ tc.traceId ++ "-" ++ tc.spanId ++ "-" ++ tc.flags

/-! ## The grammar -/

variable {tc : TraceContext} {s : String} {n : ℕ} {c : Char}

/-- The text is `version-trace-span-flags`, followed by nothing, or in a later version also by a
hyphen and any text. -/
def Traceparent (text : String) (tc : TraceContext) : Prop :=
  tc.isValid = true ∧ ∃ version, isHex version 2 = true ∧ version ≠ "ff" ∧
    (text = version ++ "-" ++ (tc.traceId ++ "-" ++ (tc.spanId ++ "-" ++ tc.flags)) ∨
      version ≠ "00" ∧ ∃ more, text =
        version ++ "-" ++ (tc.traceId ++ "-" ++ (tc.spanId ++ "-" ++ (tc.flags ++ "-" ++ more))))

/-- The hex of the first draw that is not all zeros. -/
def Drawn (draws : List (List UInt8)) (s : String) : Prop :=
  ∃ zeros raw rest, draws = zeros ++ raw :: rest ∧ (∀ z ∈ zeros, ∀ b ∈ z, b = 0) ∧
    (∃ b ∈ raw, b ≠ 0) ∧ s = String.ofList (hexDigits raw)

theorem hyphen_not_mem (h : isHex s n = true) : '-' ∉ s.toList := by
  intro hmem
  simp only [isHex, Bool.and_eq_true, List.all_eq_true] at h
  exact absurd (h.2 '-' hmem) (by decide)

theorem isValid_iff : tc.isValid = true ↔
    isHex tc.traceId 32 = true ∧ nonZero tc.traceId = true ∧ isHex tc.spanId 16 = true ∧
      nonZero tc.spanId = true ∧ isHex tc.flags 2 = true := by
  simp only [isValid, Bool.and_eq_true, and_assoc]

theorem split_hyphen {text part next : String} {parts : List String} :
    Text.split '-' text = part :: next :: parts ↔
      '-' ∉ part.toList ∧ ∃ rest, text = part ++ "-" ++ rest ∧
        Text.split '-' rest = next :: parts := by
  rw [Text.split_eq_cons]
  constructor
  · rintro ⟨hpart, ⟨hnil, -⟩ | ⟨rest, htext, hrest⟩⟩
    · cases hnil
    · refine ⟨hpart, rest, String.toList_injective ?_, hrest⟩
      simpa using htext
  · rintro ⟨hpart, rest, rfl, hrest⟩
    exact ⟨hpart, .inr ⟨rest, by simp, hrest⟩⟩

theorem split_last {text part : String} :
    Text.split '-' text = [part] ↔ '-' ∉ part.toList ∧ text = part := by
  rw [Text.split_eq_cons]
  constructor
  · rintro ⟨hpart, ⟨-, rfl⟩ | ⟨rest, -, hrest⟩⟩
    · exact ⟨hpart, rfl⟩
    · exact absurd hrest (by simp [Text.split])
  · rintro ⟨hpart, rfl⟩
    exact ⟨hpart, .inl ⟨rfl, rfl⟩⟩

theorem split_fields {version last : String} {rest : List String} (hv : isHex version 2 = true)
    (htc : tc.isValid = true) (hlast : Text.split '-' last = tc.flags :: rest) :
    Text.split '-' (version ++ "-" ++ (tc.traceId ++ "-" ++ (tc.spanId ++ "-" ++ last))) =
      version :: tc.traceId :: tc.spanId :: tc.flags :: rest := by
  obtain ⟨ht, -, hs, -, -⟩ := isValid_iff.mp htc
  refine split_hyphen.mpr ⟨hyphen_not_mem hv, _, rfl, ?_⟩
  refine split_hyphen.mpr ⟨hyphen_not_mem ht, _, rfl, ?_⟩
  exact split_hyphen.mpr ⟨hyphen_not_mem hs, _, rfl, hlast⟩

theorem parse_eq_some {value : String} :
    parse value = some tc ↔ Traceparent (Text.trim value) tc := by
  unfold parse
  constructor
  · intro h
    split at h
    · rename_i version traceId spanId flags rest hsplit
      dsimp only at h
      split_ifs at h with hextra hvalid
      obtain rfl := Option.some.inj h
      obtain ⟨hversion, hff, htc⟩ := hvalid
      obtain ⟨-, r₁, htext, h₁⟩ := split_hyphen.mp hsplit
      obtain ⟨-, r₂, rfl, h₂⟩ := split_hyphen.mp h₁
      obtain ⟨-, r₃, rfl, h₃⟩ := split_hyphen.mp h₂
      refine ⟨htc, version, hversion, hff, ?_⟩
      cases rest with
      | nil =>
        obtain ⟨-, rfl⟩ := split_last.mp h₃
        exact .inl htext
      | cons next rest =>
        obtain ⟨-, more, rfl, -⟩ := split_hyphen.mp h₃
        exact .inr ⟨fun h00 => hextra ⟨h00, List.cons_ne_nil next rest⟩, more, htext⟩
    · cases h
  · rintro ⟨htc, version, hversion, hff, htext⟩
    have hflags := hyphen_not_mem (isValid_iff.mp htc).2.2.2.2
    have hgood : isHex version 2 = true ∧ version ≠ "ff" ∧ tc.isValid = true :=
      ⟨hversion, hff, htc⟩
    rcases htext with htext | ⟨h00, more, htext⟩
    · rw [htext, split_fields hversion htc (split_last.mpr ⟨hflags, rfl⟩)]
      simp [hgood]
    · obtain ⟨next, rest, hmore⟩ := List.exists_cons_of_ne_nil
        (show Text.split '-' more ≠ [] by simp [Text.split])
      rw [htext, split_fields hversion htc (split_hyphen.mpr ⟨hflags, more, rfl, hmore⟩)]
      simp [hgood, h00]

/-- The accepted headers are those of the grammar, and give exactly its parts. -/
theorem fromHeaders_eq_some {headers : HeaderMap} :
    fromHeaders headers = some tc ↔
      ∃ v, headers.getStr "traceparent" = some v ∧ Traceparent (Text.trim v) tc := by
  simp only [fromHeaders, Option.bind_eq_some_iff, parse_eq_some]

/-! ## Propagation -/

theorem eq_zero_of_hexDigit {k : ℕ} (hk : k < 16) (h : hexDigit k = '0') : k = 0 := by
  have hdigit := toDigit16_hexDigit k hk
  rw [h] at hdigit
  exact (Option.some.inj hdigit).symm

theorem isHexChar_of_mem_hexDigits {raw : List UInt8} (h : c ∈ hexDigits raw) :
    isHexChar c = true := by
  have hall : "0123456789abcdef".toList.all isHexChar = true := by decide
  exact List.all_eq_true.mp hall c (mem_hexDigits h)

theorem randomHex_spec {draws : List (List UInt8)} (h : randomHex draws = some s)
    (hlen : ∀ raw ∈ draws, raw.length = n) : isHex s (2 * n) = true ∧ nonZero s = true := by
  obtain ⟨raw, hfind, rfl⟩ := Option.map_eq_some_iff.mp h
  have hraw := hlen raw (List.mem_of_find?_eq_some hfind)
  constructor
  · simp only [isHex, String.toList_ofList, length_hexDigits, hraw, beq_self_eq_true, Bool.true_and,
      List.all_eq_true]
    exact fun c hc => isHexChar_of_mem_hexDigits hc
  · have hany : raw.any (· != 0) = true := by simpa using List.find?_some hfind
    obtain ⟨b, hb, hne⟩ := List.any_eq_true.mp hany
    rw [nonZero, String.toList_ofList]
    by_contra hzero
    simp only [List.any_eq_true, bne_iff_ne, not_exists, not_and, not_not] at hzero
    have hdigits : ∀ d ∈ [hexDigit (b.toNat / 16), hexDigit (b.toNat % 16)], d = '0' :=
      fun d hd => hzero d (List.mem_flatMap.mpr ⟨b, hb, hd⟩)
    have hb256 := b.toNat_lt
    have hhigh : b.toNat / 16 = 0 := eq_zero_of_hexDigit (by omega) (hdigits _ (by simp))
    have hlow : b.toNat % 16 = 0 := eq_zero_of_hexDigit (by omega) (hdigits _ (by simp))
    have hzeroNat : b.toNat = 0 := by omega
    exact absurd (UInt8.toNat_inj.mp hzeroNat) (by simpa using hne)

theorem drawn_of_randomHex {draws : List (List UInt8)} (h : randomHex draws = some s) :
    Drawn draws s := by
  obtain ⟨raw, hfind, rfl⟩ := Option.map_eq_some_iff.mp h
  obtain ⟨hraw, zeros, rest, hdraws, hzeros⟩ := List.find?_eq_some_iff_append.mp hfind
  refine ⟨zeros, raw, rest, hdraws, fun z hz b hb => ?_, by simpa using hraw, rfl⟩
  have hnone := hzeros z hz
  simp only [Bool.not_eq_true', List.any_eq_false, bne_iff_ne, ne_eq, not_not] at hnone
  exact hnone b hb

theorem drawn_of_child {t : TraceContext} {draws : List (List UInt8)}
    (h : tc.child draws = some t) : Drawn draws t.spanId := by
  obtain ⟨spanId, hspan, rfl⟩ := Option.map_eq_some_iff.mp h
  exact drawn_of_randomHex hspan

theorem isValid_newRoot {sampled : Bool} {traceDraws spanDraws : List (List UInt8)}
    (h : newRoot sampled traceDraws spanDraws = some tc)
    (ht : ∀ raw ∈ traceDraws, raw.length = 16) (hs : ∀ raw ∈ spanDraws, raw.length = 8) :
    tc.isValid = true := by
  obtain ⟨traceId, htrace, h⟩ := Option.bind_eq_some_iff.mp h
  obtain ⟨spanId, hspan, h⟩ := Option.bind_eq_some_iff.mp h
  obtain rfl := Option.some.inj h
  have htrace := randomHex_spec htrace ht
  have hspan := randomHex_spec hspan hs
  have hflags : isHex (if sampled then "01" else "00") 2 = true := by cases sampled <;> decide
  exact isValid_iff.mpr ⟨htrace.1, htrace.2, hspan.1, hspan.2, hflags⟩

theorem isValid_child {t : TraceContext} {draws : List (List UInt8)} (htc : tc.isValid = true)
    (h : tc.child draws = some t) (hs : ∀ raw ∈ draws, raw.length = 8) :
    t.isValid = true ∧ t.traceId = tc.traceId ∧ t.flags = tc.flags := by
  obtain ⟨spanId, hspan, rfl⟩ := Option.map_eq_some_iff.mp h
  obtain ⟨ht, htz, -, -, hf⟩ := isValid_iff.mp htc
  have hspan := randomHex_spec hspan hs
  exact ⟨isValid_iff.mpr ⟨ht, htz, hspan.1, hspan.2, hf⟩, rfl, rfl⟩

theorem toHeader_eq (tc : TraceContext) :
    tc.toHeader = "00" ++ "-" ++ (tc.traceId ++ "-" ++ (tc.spanId ++ "-" ++ tc.flags)) := by
  simp only [toHeader, ← String.append_assoc]
  rfl

theorem mem_toHeader (htc : tc.isValid = true) (hc : c ∈ tc.toHeader.toList) :
    isHexChar c = true ∨ c = '-' := by
  obtain ⟨ht, -, hs, -, hf⟩ := isValid_iff.mp htc
  simp only [isHex, Bool.and_eq_true, List.all_eq_true] at ht hs hf
  simp only [toHeader_eq, String.toList_append, List.mem_append] at hc
  have hzeros : ∀ c ∈ "00".toList, isHexChar c = true :=
    List.all_eq_true.mp (by decide : "00".toList.all isHexChar = true)
  have hyphen : ∀ c ∈ "-".toList, c = '-' := by simp
  rcases hc with (hc | hc) | (hc | hc) | (hc | hc) | hc
  · exact .inl (hzeros c hc)
  · exact .inr (hyphen c hc)
  · exact .inl (ht.2 c hc)
  · exact .inr (hyphen c hc)
  · exact .inl (hs.2 c hc)
  · exact .inr (hyphen c hc)
  · exact .inl (hf.2 c hc)

theorem visible_of_headerChar (h : isHexChar c = true ∨ c = '-') :
    HeaderValue.isVisibleChar c = true ∧ Text.isBlank c = false := by
  rcases h with h | rfl
  · have hrange : 48 ≤ c.toNat ∧ c.toNat ≤ 102 := by
      simp only [isHexChar, Bool.or_eq_true, Bool.and_eq_true, decide_eq_true_eq, Char.le_def,
        UInt32.le_iff_toNat_le] at h
      rcases h with h | h
      · change 48 ≤ c.toNat ∧ c.toNat ≤ 57 at h
        omega
      · change 97 ≤ c.toNat ∧ c.toNat ≤ 102 at h
        omega
    constructor
    · simp only [HeaderValue.isVisibleChar, Bool.or_eq_true, Bool.and_eq_true, decide_eq_true_eq]
      omega
    · simp only [Text.isBlank, Bool.or_eq_false_iff, beq_eq_false_iff_ne]
      constructor
      · rintro rfl
        exact absurd hrange.1 (by decide)
      · rintro rfl
        exact absurd hrange.1 (by decide)
  · decide

theorem parse_toHeader (htc : tc.isValid = true) : parse tc.toHeader = some tc := by
  rw [parse_eq_some, Text.trim_of_no_blank fun c hc =>
    (visible_of_headerChar (mem_toHeader htc hc)).2]
  exact ⟨htc, "00", by decide, by decide, .inl (toHeader_eq tc)⟩

/-- The header of a valid context can be sent and is read back as that context. -/
theorem fromHeaders_toHeader (headers : HeaderMap) (htc : tc.isValid = true) :
    ∃ value, HeaderValue.fromStr tc.toHeader = some value ∧
      fromHeaders (headers.insert .traceparent value) = some tc := by
  obtain ⟨value, hvalue, htext⟩ := HeaderValue.toStr_fromStr fun c hc =>
    (visible_of_headerChar (mem_toHeader htc hc)).1
  refine ⟨value, hvalue, ?_⟩
  have hget : (headers.insert .traceparent value).getStr "traceparent" = value.toStr :=
    HeaderMap.getStr_insert headers .traceparent value
  rw [fromHeaders, hget, htext, Option.bind_some, parse_toHeader htc]

/-- The contexts the proxy works with: those of requests and those it starts. -/
inductive Obtained : TraceContext → Prop where

  | parsed {headers : HeaderMap} {tc : TraceContext} : fromHeaders headers = some tc → Obtained tc

  | started {sampled : Bool} {traceDraws spanDraws : List (List UInt8)} {tc : TraceContext} :
      newRoot sampled traceDraws spanDraws = some tc → (∀ raw ∈ traceDraws, raw.length = 16) →
      (∀ raw ∈ spanDraws, raw.length = 8) → Obtained tc

theorem Obtained.isValid (h : Obtained tc) : tc.isValid = true := by
  cases h with
  | parsed h =>
    obtain ⟨v, -, htext⟩ := fromHeaders_eq_some.mp h
    exact htext.1
  | started h ht hs => exact isValid_newRoot h ht hs

theorem exists_child {draws : List (List UInt8)} (h : ∃ raw ∈ draws, raw.any (· != 0) = true)
    (tc : TraceContext) : ∃ t, tc.child draws = some t := by
  obtain ⟨raw, hraw, hne⟩ := h
  cases hf : draws.find? fun raw => raw.any (· != 0) with
  | none => exact absurd hne (List.find?_eq_none.mp hf raw hraw)
  | some first => exact ⟨_, by rw [child, randomHex, hf]; rfl⟩

/-- Parsing accepts exactly the grammar, and what is sent upstream carries the trace, its flags and
the sampling decision on under the child's span, whose id is the first draw that is not zero. -/
theorem traceparent_exact_and_propagated :
    (∀ headers tc, fromHeaders headers = some tc ↔
      ∃ v, headers.getStr "traceparent" = some v ∧ Traceparent (Text.trim v) tc) ∧
    ∀ tc, Obtained tc → ∀ draws : List (List UInt8), (∀ raw ∈ draws, raw.length = 8) →
      (∃ raw ∈ draws, raw.any (· != 0) = true) → ∀ headers : HeaderMap,
        ∃ sent value received, tc.child draws = some sent ∧ Drawn draws sent.spanId ∧
          HeaderValue.fromStr sent.toHeader = some value ∧
          fromHeaders (headers.insert .traceparent value) = some received ∧
          received.traceId = tc.traceId ∧ received.flags = tc.flags ∧
          received.spanId = sent.spanId ∧ received.isSampled = tc.isSampled := by
  refine ⟨fun headers tc => fromHeaders_eq_some, fun tc hobtained draws hlen hdraw headers => ?_⟩
  obtain ⟨sent, hsent⟩ := exists_child hdraw tc
  obtain ⟨hvalid, htrace, hflags⟩ := isValid_child hobtained.isValid hsent hlen
  obtain ⟨value, hvalue, hreceived⟩ := fromHeaders_toHeader headers hvalid
  refine ⟨sent, value, sent, hsent, drawn_of_child hsent, hvalue, hreceived, htrace, hflags, rfl,
    ?_⟩
  rw [isSampled, isSampled, hflags]

/-- A trace that is started and passed on once. -/
theorem traceparent_propagated_once :
    ∃ tc, newRoot true [List.replicate 16 7] [List.replicate 8 1] = some tc ∧
      ∃ sent value received, tc.child [List.replicate 8 0, List.replicate 8 2] = some sent ∧
        Drawn [List.replicate 8 0, List.replicate 8 2] sent.spanId ∧
        HeaderValue.fromStr sent.toHeader = some value ∧
        fromHeaders (HeaderMap.insert ⟨∅, by simp⟩ .traceparent value) = some received ∧
        received.traceId = tc.traceId ∧ received.flags = tc.flags ∧
        received.spanId = sent.spanId ∧ received.isSampled = tc.isSampled := by
  have hroot : Obtained _ :=
    @Obtained.started true [List.replicate 16 7] [List.replicate 8 1] _ rfl (by simp) (by simp)
  exact ⟨_, rfl, traceparent_exact_and_propagated.2 _ hroot _ (by simp) (by simp) _⟩

end TraceContext

end Stouter
