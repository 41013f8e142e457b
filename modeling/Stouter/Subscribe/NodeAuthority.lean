import Mathlib.Data.List.TakeWhile
import Stouter.Subscribe.Attempt
import Stouter.Lists.Basic

/-! # Node authorities

The id of a node travels to the connector of the HTTP client as the host of a
URI: in hexadecimal, cut into labels, with a fixed suffix. `nodeIdFromUri` reads
it back. In between lies the URI parser, of which `EndsAuthority` says what it
does with a text that starts with an authority.
-/

namespace Stouter

def nodeHostSuffix : String := "stouter"

/-- `char::to_digit(16)`. -/
def toDigit16 (c : Char) : Option ℕ :=
  if '0' ≤ c ∧ c ≤ '9' then some (c.toNat - '0'.toNat)
  else if 'a' ≤ c ∧ c ≤ 'f' then some (c.toNat - 'a'.toNat + 10)
  else if 'A' ≤ c ∧ c ≤ 'F' then some (c.toNat - 'A'.toNat + 10)
  else none

/-- `u8::from_str_radix` of two characters, which may start with a plus sign. -/
def fromStrRadix16 (a b : Char) : Option UInt8 :=
  if a = '+' then (toDigit16 b).map UInt8.ofNat
  else do
    let high ← toDigit16 a
    let low ← toDigit16 b
    return UInt8.ofNat (16 * high + low)

/-- Every two characters as a byte. -/
def hexBytes : List Char → Option (List UInt8)
  | a :: b :: hex => do
    let byte ← fromStrRadix16 a b
    let bytes ← hexBytes hex
    return byte :: bytes
  | _ => some []

/-- Inverse of the authority encoding in `nodeUri`. A host is ASCII, so that its bytes are its
characters. -/
def nodeIdFromUri (uri : Uri) : Option String := do
  let host ← uri.host
  let host ← host.toList.dropSuffix? nodeHostSuffix.toList
  let host ← host.dropSuffix? ['.']
  let hex := (host.splitOn '.').flatten
  if hex.length % 2 ≠ 0 then none
  else do
    let bytes ← hexBytes hex
    String.fromUTF8? ⟨bytes.toArray⟩

/-- The node the connector opens a tunnel to. -/
def upstreamNode (knownNodes : HashMap String NodeInfo) (uri : Uri) : Except String NodeInfo :=
  match nodeIdFromUri uri with
  | none => .error "invalid upstream node address"
  | some nodeId =>
    match knownNodes.lookup nodeId with
    | none => .error s!"unknown node {nodeId}"
    | some node => .ok node

/-- The path and query of a request target: of the origin form, of the absolute form, whose path
may be empty, or the asterisk. -/
def IsTarget (pathAndQuery : String) : Prop :=
  pathAndQuery = "*" ∨
    '#' ∉ pathAndQuery.toList ∧ (pathAndQuery.toList.head? = some '/' ∨
      pathAndQuery.toList.head? = some '?')

def endsAuthority (c : Char) : Bool := c == '/' || c == '?' || c == '#'

/-- The parser ends an authority at the first slash, question mark or hash, keeps the text of a
host without user and port, and keeps the path and query, which is a slash if there is none. -/
structure HttpCrate.EndsAuthority (http : HttpCrate) : Prop where
  host {authority rest : String} {uri : Uri} :
    (∀ c ∈ authority.toList, endsAuthority c = false ∧ c ∉ [':', '@', '[', ']']) →
    (∀ c ∈ rest.toList.head?, endsAuthority c = true) →
    http.parseUri ("http://" ++ authority ++ rest) = .ok uri → uri.host = some authority
  pathAndQuery {authority rest : String} {uri : Uri} :
    (∀ c ∈ authority.toList, endsAuthority c = false ∧ c ∉ [':', '@', '[', ']']) →
    (∀ c ∈ rest.toList.head?, endsAuthority c = true) → '#' ∉ rest.toList →
    http.parseUri ("http://" ++ authority ++ rest) = .ok uri →
    uri.pathAndQuery = some (if rest = "" then "/" else rest)

/-! ## The digits -/

theorem toDigit16_hexDigit : ∀ n < 16, toDigit16 (hexDigit n) = some n := by
  decide

theorem hexDigit_mem (n : ℕ) : hexDigit n ∈ "0123456789abcdef".toList := by
  rw [hexDigit, List.getD_eq_getElem?_getD]
  cases hn : "0123456789abcdef".toList[n]? with
  | none => decide
  | some c => exact List.mem_of_getElem? hn

theorem hexDigit_ne_plus (n : ℕ) : hexDigit n ≠ '+' := by
  intro h
  have hmem := hexDigit_mem n
  rw [h] at hmem
  exact absurd hmem (by decide)

theorem fromStrRadix16_hexDigit (b : UInt8) :
    fromStrRadix16 (hexDigit (b.toNat / 16)) (hexDigit (b.toNat % 16)) = some b := by
  have hb : b.toNat < 256 := b.toNat_lt
  have hhigh := toDigit16_hexDigit (b.toNat / 16) (by omega)
  have hlow := toDigit16_hexDigit (b.toNat % 16) (by omega)
  have hsplit : 16 * (b.toNat / 16) + b.toNat % 16 = b.toNat := Nat.div_add_mod b.toNat 16
  rw [fromStrRadix16, if_neg (hexDigit_ne_plus _), hhigh, hlow]
  change some (UInt8.ofNat (16 * (b.toNat / 16) + b.toNat % 16)) = some b
  rw [hsplit, UInt8.ofNat_toNat]

/-- The digits of the bytes of an id, as `nodeUri` writes them. -/
def hexDigits (bytes : List UInt8) : List Char :=
  bytes.flatMap fun b => [hexDigit (b.toNat / 16), hexDigit (b.toNat % 16)]

theorem length_hexDigits (bytes : List UInt8) : (hexDigits bytes).length = 2 * bytes.length := by
  induction bytes with
  | nil => rfl
  | cons b bytes ih =>
    simp only [hexDigits, List.flatMap_cons, List.length_append, List.length_cons,
      List.length_nil] at ih ⊢
    omega

theorem hexBytes_hexDigits (bytes : List UInt8) : hexBytes (hexDigits bytes) = some bytes := by
  induction bytes with
  | nil => rfl
  | cons b bytes ih =>
    change hexBytes (_ :: _ :: hexDigits bytes) = _
    simp [hexBytes, fromStrRadix16_hexDigit, ih]

/-! ## The authority -/

variable {http : HttpCrate} {id pq : String} {uri : Uri}

def nodeLabels (id : String) : List (List Char) :=
  (hexDigits id.toByteArray.data.toList).toChunks 62

def nodeHost (id : String) : String := ".".intercalate ((nodeLabels id).map String.ofList)

theorem nodeUri_eq_some (h : nodeUri http id pq = some uri) :
    http.parseUri ("http://" ++ nodeHost id ++ ".stouter" ++ pq) = .ok uri := by
  unfold nodeUri at h
  dsimp only at h
  split at h
  · rename_i uri' hparse
    obtain rfl := Option.some.inj h
    exact hparse
  · cases h

theorem toList_nodeHost (id : String) :
    (nodeHost id).toList = ['.'].intercalate (nodeLabels id) := by
  rw [nodeHost, String.toList_intercalate, List.map_map]
  simp [Function.comp_def]

theorem flatten_nodeLabels (id : String) :
    (nodeLabels id).flatten = hexDigits id.toByteArray.data.toList := List.flatten_toChunks 62 _

theorem mem_hexDigits {bytes : List UInt8} {c : Char} (h : c ∈ hexDigits bytes) :
    c ∈ "0123456789abcdef".toList := by
  obtain ⟨b, _, hc⟩ := List.mem_flatMap.mp h
  rcases List.mem_cons.mp hc with rfl | hc
  · exact hexDigit_mem _
  · rw [List.mem_singleton.mp hc]
    exact hexDigit_mem _

theorem dot_not_mem_hexDigits (bytes : List UInt8) : '.' ∉ hexDigits bytes := fun h =>
  absurd (mem_hexDigits h) (by decide)

theorem mem_nodeHost {c : Char} (h : c ∈ (nodeHost id).toList) :
    c ∈ ".0123456789abcdef".toList := by
  rw [toList_nodeHost] at h
  rcases List.mem_intercalate_singleton h with rfl | hc
  · decide
  · rw [flatten_nodeLabels] at hc
    exact List.mem_cons_of_mem '.' (mem_hexDigits hc)

/-- The decoder takes the dots out again and reads the id. -/
theorem nodeIdFromUri_nodeHost (h : uri.host = some (nodeHost id ++ ".stouter")) :
    nodeIdFromUri uri = some id := by
  have hdots : ((nodeHost id).toList.splitOn '.').flatten =
      hexDigits id.toByteArray.data.toList := by
    rw [toList_nodeHost, List.flatten_splitOn_intercalate, flatten_nodeLabels]
    rw [flatten_nodeLabels]
    exact dot_not_mem_hexDigits _
  have hlist : (nodeHost id ++ ".stouter").toList =
      ((nodeHost id).toList ++ ['.']) ++ nodeHostSuffix.toList := by
    rw [String.toList_append, List.append_assoc]
    rfl
  have heven : 2 * id.toByteArray.data.toList.length % 2 = 0 := Nat.mul_mod_right 2 _
  unfold nodeIdFromUri
  simp only [h, Option.bind_eq_bind, Option.bind_some, hlist, List.dropSuffix?_append, hdots,
    length_hexDigits, heven, hexBytes_hexDigits]
  have hvalid : (⟨id.toByteArray.data.toList.toArray⟩ : ByteArray).IsValidUTF8 := id.isValidUTF8
  simp [String.fromUTF8?, hvalid, String.fromUTF8]

/-- With the asterisk behind it the suffix is no longer one. -/
theorem nodeIdFromUri_asterisk (h : uri.host = some (nodeHost id ++ ".stouter*")) :
    nodeIdFromUri uri = none := by
  have hlist : (nodeHost id ++ ".stouter*").toList.dropSuffix? nodeHostSuffix.toList = none := by
    by_contra hsome
    obtain ⟨host, hhost⟩ := Option.ne_none_iff_exists'.mp hsome
    obtain ⟨suffix, heq, hsuffix⟩ := List.dropSuffix?_eq_some_iff.mp hhost
    have hlast := congrArg List.getLast? heq
    rw [beq_iff_eq.mp hsuffix, String.toList_append] at hlast
    simp [nodeHostSuffix] at hlast
  unfold nodeIdFromUri
  simp only [h, Option.bind_eq_bind, Option.bind_some, hlist, Option.bind_none]

theorem nodeHost_injective : Function.Injective nodeHost := by
  intro id₁ id₂ h
  have h₁ : nodeIdFromUri ⟨none, some (nodeHost id₁ ++ ".stouter"), none⟩ = some id₁ :=
    nodeIdFromUri_nodeHost rfl
  rw [h, nodeIdFromUri_nodeHost rfl] at h₁
  exact (Option.some.inj h₁).symm

/-! ## Through the parser -/

theorem plain_authority (id suffix : String) (hs : suffix.toList <+: ".stouter*".toList) :
    ∀ c ∈ (nodeHost id ++ suffix).toList, endsAuthority c = false ∧ c ∉ [':', '@', '[', ']'] := by
  have hplain : ((".0123456789abcdef".toList ++ ".stouter*".toList).all fun c =>
      !endsAuthority c && !([':', '@', '[', ']'].contains c)) = true := by decide
  intro c hc
  have hmem : c ∈ ".0123456789abcdef".toList ++ ".stouter*".toList := by
    rw [String.toList_append] at hc
    rcases List.mem_append.mp hc with hc | hc
    · exact List.mem_append_left _ (mem_nodeHost hc)
    · exact List.mem_append_right _ (hs.subset hc)
  simpa using List.all_eq_true.mp hplain c hmem

theorem nodeUri_target (hh : http.EndsAuthority) (hpq : IsTarget pq) (hne : pq ≠ "*")
    (hu : nodeUri http id pq = some uri) :
    uri.host = some (nodeHost id ++ ".stouter") ∧ uri.pathAndQuery = some pq := by
  have hparse := nodeUri_eq_some hu
  have htext : "http://" ++ nodeHost id ++ ".stouter" ++ pq =
      "http://" ++ (nodeHost id ++ ".stouter") ++ pq := by
    apply String.toList_injective
    simp
  rw [htext] at hparse
  obtain hstar | ⟨hhash, hhead⟩ := hpq
  · exact absurd hstar hne
  have hplain := plain_authority id ".stouter" ⟨['*'], rfl⟩
  have hends : ∀ c ∈ pq.toList.head?, endsAuthority c = true := by
    intro c hc
    rcases hhead with hhead | hhead <;> rw [hhead] at hc <;> cases hc <;> rfl
  have hrest : pq ≠ "" := by
    rintro rfl
    simp at hhead
  refine ⟨hh.host hplain hends hparse, ?_⟩
  rw [hh.pathAndQuery hplain hends hhash hparse, if_neg hrest]

theorem nodeUri_asterisk (hh : http.EndsAuthority) (hu : nodeUri http id "*" = some uri) :
    uri.host = some (nodeHost id ++ ".stouter*") ∧ uri.pathAndQuery = some "/" := by
  have hparse := nodeUri_eq_some hu
  have htext : "http://" ++ nodeHost id ++ ".stouter" ++ "*" =
      "http://" ++ (nodeHost id ++ ".stouter*") ++ "" := by
    apply String.toList_injective
    simp
  rw [htext] at hparse
  have hplain := plain_authority id ".stouter*" (List.prefix_refl _)
  exact ⟨hh.host hplain (by simp) hparse, hh.pathAndQuery hplain (by simp) (by simp) hparse⟩

theorem eq_of_nodeHost_append {id id' suffix : String}
    (h : nodeHost id ++ suffix = nodeHost id' ++ suffix) : id = id' := by
  apply nodeHost_injective
  apply String.toList_injective
  have hlist := congrArg String.toList h
  rw [String.toList_append, String.toList_append] at hlist
  exact List.append_cancel_right hlist

theorem stouter_ne_asterisk {id id' : String} :
    nodeHost id ++ ".stouter" ≠ nodeHost id' ++ ".stouter*" := by
  intro h
  have hlast := congrArg (fun s : String => s.toList.getLast?) h
  simp at hlast

/-- A node id and a path and query come back from the URI made of them unless the path and query
is the asterisk; and no two node ids share an authority. -/
theorem round_trip_iff_ne_asterisk (hh : http.EndsAuthority) :
    (∀ id pq uri, IsTarget pq → nodeUri http id pq = some uri →
      (nodeIdFromUri uri = some id ∧ uri.pathAndQuery = some pq ↔ pq ≠ "*")) ∧
    ∀ id id' pq pq' uri uri', IsTarget pq → IsTarget pq' → nodeUri http id pq = some uri →
      nodeUri http id' pq' = some uri' → uri.host = uri'.host → id = id' := by
  constructor
  · intro id pq uri hpq hu
    constructor
    · rintro ⟨hid, _⟩ rfl
      rw [nodeIdFromUri_asterisk (nodeUri_asterisk hh hu).1] at hid
      cases hid
    · intro hne
      obtain ⟨hhost, hkept⟩ := nodeUri_target hh hpq hne hu
      exact ⟨nodeIdFromUri_nodeHost hhost, hkept⟩
  · intro id id' pq pq' uri uri' hpq hpq' hu hu' hhost
    by_cases hstar : pq = "*"
    · subst hstar
      rw [(nodeUri_asterisk hh hu).1] at hhost
      by_cases hstar' : pq' = "*"
      · subst hstar'
        rw [(nodeUri_asterisk hh hu').1] at hhost
        exact eq_of_nodeHost_append (Option.some.inj hhost)
      · rw [(nodeUri_target hh hpq' hstar' hu').1] at hhost
        exact absurd (Option.some.inj hhost).symm stouter_ne_asterisk
    · rw [(nodeUri_target hh hpq hstar hu).1] at hhost
      by_cases hstar' : pq' = "*"
      · subst hstar'
        rw [(nodeUri_asterisk hh hu').1] at hhost
        exact absurd (Option.some.inj hhost) stouter_ne_asterisk
      · rw [(nodeUri_target hh hpq' hstar' hu').1] at hhost
        exact eq_of_nodeHost_append (Option.some.inj hhost)

/-- A crate that reads `http://` texts whose authority has neither user nor port. -/
def delimitedHttp : HttpCrate where
  validHeaderName := plainHttp.validHeaderName
  parseUri text :=
    if text.toList.take 7 = "http://".toList then
      let rest := text.toList.drop 7
      let authority := rest.takeWhile fun c => !endsAuthority c
      let pathAndQuery := (rest.dropWhile fun c => !endsAuthority c).takeWhile (· ≠ '#')
      if authority.any fun c => [':', '@', '[', ']'].contains c then .error "invalid authority"
      else .ok ⟨some "http", some (String.ofList authority),
        some (if pathAndQuery.isEmpty then "/" else String.ofList pathAndQuery)⟩
    else .error "invalid uri character"

theorem delimitedHttp_parseUri {authority rest : String}
    (ha : ∀ c ∈ authority.toList, endsAuthority c = false ∧ c ∉ [':', '@', '[', ']'])
    (hr : ∀ c ∈ rest.toList.head?, endsAuthority c = true)
    (hu : delimitedHttp.parseUri ("http://" ++ authority ++ rest) = .ok uri) :
    uri.host = some authority ∧ ('#' ∉ rest.toList →
      uri.pathAndQuery = some (if rest = "" then "/" else rest)) := by
  have htext : ("http://" ++ authority ++ rest).toList =
      "http://".toList ++ (authority.toList ++ rest.toList) := by simp
  have hall : ∀ c ∈ authority.toList, (!endsAuthority c) = true := by
    intro c hc
    rw [(ha c hc).1]
    rfl
  have hstop : rest.toList.takeWhile (fun c => !endsAuthority c) = [] ∧
      rest.toList.dropWhile (fun c => !endsAuthority c) = rest.toList := by
    cases hl : rest.toList with
    | nil => simp
    | cons c l => simp [hr c (by simp [hl])]
  have hhost : (authority.toList ++ rest.toList).takeWhile (fun c => !endsAuthority c) =
      authority.toList := by
    rw [List.takeWhile_append_of_pos hall, hstop.1, List.append_nil]
  have hrest : (authority.toList ++ rest.toList).dropWhile (fun c => !endsAuthority c) =
      rest.toList := by
    rw [List.dropWhile_append_of_pos hall, hstop.2]
  have htake : ("http://".toList ++ (authority.toList ++ rest.toList)).take 7 = "http://".toList :=
    List.take_left' (by decide)
  have hdrop : ("http://".toList ++ (authority.toList ++ rest.toList)).drop 7 =
      authority.toList ++ rest.toList := List.drop_left' (by decide)
  have hport : (authority.toList.any fun c => [':', '@', '[', ']'].contains c) = false := by
    rw [List.any_eq_false]
    intro c hc hcontains
    exact (ha c hc).2 (List.contains_iff_mem.mp hcontains)
  simp only [delimitedHttp, htext, htake, hdrop, hhost, hrest, hport, if_true, Bool.false_eq_true,
    if_false] at hu
  obtain rfl := Except.ok.inj hu
  refine ⟨by rw [String.ofList_toList], fun hhash => ?_⟩
  have hkeep : rest.toList.takeWhile (· ≠ '#') = rest.toList := by
    apply List.takeWhile_eq_self_iff.mpr
    intro c hc
    rw [decide_eq_true_iff]
    rintro rfl
    exact hhash hc
  simp only [hkeep, List.isEmpty_iff, String.ofList_toList, String.toList_eq_nil_iff]

theorem delimitedHttp_endsAuthority : delimitedHttp.EndsAuthority where
  host ha hr hu := (delimitedHttp_parseUri ha hr hu).1
  pathAndQuery ha hr hhash hu := (delimitedHttp_parseUri ha hr hu).2 hhash

theorem round_trip_unicodeId :
    IsTarget "?c=d" ∧ ∃ uri, nodeUri delimitedHttp "ünïcode" "?c=d" = some uri ∧
      nodeIdFromUri uri = some "ünïcode" ∧ uri.pathAndQuery = some "?c=d" := by
  have htarget : IsTarget "?c=d" := .inr ⟨by decide, .inr (by decide)⟩
  have hback := (round_trip_iff_ne_asterisk delimitedHttp_endsAuthority).1 "ünïcode" "?c=d" _
    htarget rfl
  exact ⟨htarget, _, rfl, hback.mpr (by decide)⟩

/-- The target of `OPTIONS *` becomes part of the host, and the connector finds no node id. -/
theorem lost_at_asterisk :
    delimitedHttp.EndsAuthority ∧ IsTarget "*" ∧
      ∃ uri, nodeUri delimitedHttp "n1" "*" = some uri ∧ uri.host = some "6e31.stouter*" ∧
        nodeIdFromUri uri = none ∧ uri.pathAndQuery = some "/" ∧
        ∀ nodes, upstreamNode nodes uri = .error "invalid upstream node address" := by
  refine ⟨delimitedHttp_endsAuthority, .inl rfl, _, rfl, by decide, by decide, by decide, ?_⟩
  intro nodes
  rfl

end Stouter
