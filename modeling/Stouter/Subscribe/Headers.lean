import Stouter.Maps.Basic
import Stouter.Text.Basic

/-! # Header maps and hop-by-hop headers

A header map has a list of values for each name. Names are lowercase tokens,
values are bytes; a value is read as text only if all its bytes are visible
ASCII. `strip_hop_by_hop` removes the headers that concern one connection,
among them those that a `Connection` value names, which it finds only in
values that can be read as text.
-/

namespace Stouter

/-- A character that header names consist of, after lowercasing. -/
def isNameChar (c : Char) : Bool :=
  c.isLower || c.isDigit || "!#$%&'*+-.^_`|~".toList.contains c

/-- At most `MAX_HEADER_NAME_LEN` name characters, and at least one. -/
def isHeaderName (s : String) : Bool :=
  !s.toList.isEmpty && s.toList.length ≤ 65535 && s.toList.all isNameChar

structure HeaderName where
  text : String
  valid : isHeaderName text = true
  deriving DecidableEq

namespace HeaderName

def fromBytes (s : String) : Option HeaderName :=
  if h : isHeaderName (Text.lower s) = true then some ⟨Text.lower s, h⟩ else none

theorem fromBytes_eq_some {s : String} {n : HeaderName} :
    fromBytes s = some n ↔ Text.lower s = n.text := by
  unfold fromBytes
  constructor
  · intro h
    split_ifs at h
    rw [← Option.some.inj h]
  · intro h
    have hv : isHeaderName (Text.lower s) = true := h ▸ n.valid
    rw [dif_pos hv]
    cases n
    simpa using h

theorem toLower_of_isNameChar {c : Char} (h : isNameChar c = true) : c.toLower = c := by
  have hupper : ¬ (c.val ≥ 'A'.val ∧ c.val ≤ 'Z'.val) := by
    rintro ⟨hlow, hhigh⟩
    simp only [isNameChar, Bool.or_eq_true] at h
    rcases h with (h | h) | h
    · change (decide (c.val ≥ 'a'.val) && _) = true at h
      simp only [Bool.and_eq_true, decide_eq_true_eq] at h
      exact absurd (UInt32.le_trans h.1 hhigh) (by decide)
    · simp only [Char.isDigit, Bool.and_eq_true, decide_eq_true_eq] at h
      exact absurd (UInt32.le_trans hlow h.2) (by decide)
    · have hlist : ("!#$%&'*+-.^_`|~".toList.all fun c => c.val < 'A'.val || 'Z'.val < c.val) =
          true := by decide
      have hc := List.all_eq_true.mp hlist c (by simpa using h)
      simp only [Bool.or_eq_true, decide_eq_true_eq] at hc
      rcases hc with hc | hc
      · exact absurd (UInt32.lt_of_lt_of_le hc hlow) (UInt32.lt_irrefl _)
      · exact absurd (UInt32.lt_of_le_of_lt hhigh hc) (UInt32.lt_irrefl _)
  exact Text.toLower_eq_self hupper

theorem lower_text (n : HeaderName) : Text.lower n.text = n.text := by
  have hchars : ∀ c ∈ n.text.toList, isNameChar c = true := by
    have hv := n.valid
    simp only [isHeaderName, Bool.and_eq_true] at hv
    exact List.all_eq_true.mp hv.2
  have hmap : n.text.toList.map Char.toLower = n.text.toList.map id :=
    List.map_congr_left fun c hc => toLower_of_isNameChar (hchars c hc)
  rw [Text.lower, hmap, List.map_id, String.ofList_toList]

def connection : HeaderName := ⟨"connection", by decide⟩

def upgrade : HeaderName := ⟨"upgrade", by decide⟩

def traceparent : HeaderName := ⟨"traceparent", by decide⟩

end HeaderName

/-- Field content, blanks and `obs-text`, but no control character. -/
def isValueByte (b : UInt8) : Bool := (32 ≤ b && b != 127) || b == 9

def isVisibleAscii (b : UInt8) : Bool := (32 ≤ b && b < 127) || b == 9

structure HeaderValue where
  bytes : List UInt8
  valid : bytes.all isValueByte = true
  deriving DecidableEq

namespace HeaderValue

def text (v : HeaderValue) : String := String.ofList (v.bytes.map fun b => Char.ofNat b.toNat)

def toStr (v : HeaderValue) : Option String :=
  if v.bytes.all isVisibleAscii then some v.text else none

theorem text_of_toStr {v : HeaderValue} {s : String} (h : v.toStr = some s) : v.text = s := by
  unfold toStr at h
  split_ifs at h
  exact Option.some.inj h

def isVisibleChar (c : Char) : Bool := (32 ≤ c.toNat && c.toNat < 127) || c.toNat == 9

theorem toNat_of_visible {c : Char} (h : isVisibleChar c = true) :
    (UInt8.ofNat c.toNat).toNat = c.toNat := by
  rw [UInt8.toNat_ofNat']
  simp only [isVisibleChar, Bool.or_eq_true, Bool.and_eq_true, decide_eq_true_eq, beq_iff_eq] at h
  omega

theorem isVisibleAscii_ofNat {c : Char} (h : isVisibleChar c = true) :
    isVisibleAscii (UInt8.ofNat c.toNat) = true := by
  have hnat := toNat_of_visible h
  simp only [isVisibleChar, isVisibleAscii, Bool.or_eq_true, Bool.and_eq_true, decide_eq_true_eq,
    beq_iff_eq, UInt8.le_iff_toNat_le, UInt8.lt_iff_toNat_lt, ← UInt8.toNat_inj, hnat] at h ⊢
  exact h

theorem isValueByte_of_visible {b : UInt8} (h : isVisibleAscii b = true) :
    isValueByte b = true := by
  simp only [isVisibleAscii, isValueByte, Bool.or_eq_true, Bool.and_eq_true, decide_eq_true_eq,
    beq_iff_eq, bne_iff_ne, UInt8.lt_iff_toNat_lt, ne_eq, ← UInt8.toNat_inj] at h ⊢
  rcases h with ⟨h, hlt⟩ | h
  · exact .inl ⟨h, Nat.ne_of_lt hlt⟩
  · exact .inr h

def fromStr (s : String) : Option HeaderValue :=
  if h : s.toList.all isVisibleChar = true then
    some ⟨s.toList.map fun c => UInt8.ofNat c.toNat, by
      rw [List.all_eq_true] at h
      rw [List.all_map, List.all_eq_true]
      exact fun c hc => isValueByte_of_visible (isVisibleAscii_ofNat (h c hc))⟩
  else none

/-- Visible text makes a value that reads back as it was. -/
theorem toStr_fromStr {s : String} (h : ∀ c ∈ s.toList, isVisibleChar c = true) :
    ∃ v, fromStr s = some v ∧ v.toStr = some s := by
  refine ⟨_, dif_pos (List.all_eq_true.mpr h), ?_⟩
  have hvisible : (s.toList.map fun c => UInt8.ofNat c.toNat).all isVisibleAscii = true := by
    rw [List.all_map, List.all_eq_true]
    exact fun c hc => isVisibleAscii_ofNat (h c hc)
  have htext : s.toList.map ((fun b : UInt8 => Char.ofNat b.toNat) ∘ fun c => UInt8.ofNat c.toNat) =
      s.toList.map id := by
    apply List.map_congr_left
    intro c hc
    rw [Function.comp_apply, toNat_of_visible (h c hc), Char.ofNat_toNat, id]
  rw [toStr, if_pos hvisible, text, List.map_map, htext, List.map_id, String.ofList_toList]

/-- `HeaderValue::from_static("upgrade")`. -/
def upgrade : HeaderValue := ⟨[117, 112, 103, 114, 97, 100, 101], by decide⟩

end HeaderValue

/-- Names with their values in order; a name that is there has one. -/
structure HeaderMap where
  fields : HashMap HeaderName (List HeaderValue)
  nonempty : ∀ n vs, fields.lookup n = some vs → vs ≠ []

namespace HeaderMap

variable {h : HeaderMap} {n m : HeaderName} {v : HeaderValue}

def getAll (h : HeaderMap) (n : HeaderName) : List HeaderValue := (h.fields.lookup n).getD []

def get (h : HeaderMap) (n : HeaderName) : Option HeaderValue := (h.getAll n).head?

/-- The first value of the header, when there is one and it can be read as text. -/
def getStr (h : HeaderMap) (name : String) : Option String :=
  ((HeaderName.fromBytes name).bind h.get).bind HeaderValue.toStr

def containsKey (h : HeaderMap) (n : HeaderName) : Bool := (h.fields.lookup n).isSome

def erase (h : HeaderMap) (n : HeaderName) : HeaderMap where
  fields := h.fields.erase n
  nonempty := by
    intro m vs hl
    rw [HashMap.lookup_erase_eq_ite] at hl
    split_ifs at hl
    exact h.nonempty m vs hl

/-- Remove the header of that name; a text that is no header name is no key. -/
def remove (h : HeaderMap) (name : String) : HeaderMap :=
  match HeaderName.fromBytes name with
  | none => h
  | some n => h.erase n

/-- Replace all values by one. -/
def insert (h : HeaderMap) (n : HeaderName) (v : HeaderValue) : HeaderMap where
  fields := h.fields.insert n [v]
  nonempty := by
    intro m vs hl
    rw [HashMap.lookup_insert_eq_ite] at hl
    split_ifs at hl
    · rw [← Option.some.inj hl]
      exact List.cons_ne_nil v []
    · exact h.nonempty m vs hl

theorem getAll_erase (h : HeaderMap) (n m : HeaderName) :
    (h.erase n).getAll m = if m = n then [] else h.getAll m := by
  simp only [getAll, erase, HashMap.lookup_erase_eq_ite]
  split_ifs <;> rfl

theorem getAll_insert (h : HeaderMap) (n m : HeaderName) (v : HeaderValue) :
    (h.insert n v).getAll m = if m = n then [v] else h.getAll m := by
  simp only [getAll, insert, HashMap.lookup_insert_eq_ite]
  split_ifs <;> rfl

theorem getStr_insert (h : HeaderMap) (n : HeaderName) (v : HeaderValue) :
    (h.insert n v).getStr n.text = v.toStr := by
  have hn := HeaderName.fromBytes_eq_some.mpr (HeaderName.lower_text n)
  rw [getStr, hn, Option.bind_some, get, getAll_insert, if_pos rfl]
  rfl

theorem getAll_remove (h : HeaderMap) (name : String) (n : HeaderName) :
    (h.remove name).getAll n = if Text.lower name = n.text then [] else h.getAll n := by
  unfold remove
  cases hm : HeaderName.fromBytes name with
  | none =>
    rw [if_neg]
    intro hn
    rw [HeaderName.fromBytes_eq_some.mpr hn] at hm
    cases hm
  | some m =>
    have hname : n = m ↔ Text.lower name = n.text := by
      rw [← HeaderName.fromBytes_eq_some, hm, Option.some.injEq, eq_comm]
    simp only [getAll_erase, hname]

theorem getAll_foldl_remove (names : List String) (h : HeaderMap) (n : HeaderName) :
    (names.foldl remove h).getAll n =
      if n.text ∈ names.map Text.lower then [] else h.getAll n := by
  induction names generalizing h with
  | nil => simp
  | cons name names ih =>
    rw [List.foldl_cons, ih, getAll_remove]
    by_cases hn : Text.lower name = n.text
    · simp [hn]
    · simp [hn, Ne.symm hn]

/-! ## Connection tokens -/

/-- Comma-separated tokens, lowercase and without blanks around them, which are the only white
space in a value that can be read as text. -/
def tokens (text : String) : List String :=
  (Text.split ',' text).map fun t => Text.lower (Text.trim t)

/-- The tokens of the `Connection` values that can be read as text. -/
def connectionTokens (h : HeaderMap) : List String :=
  (((h.getAll .connection).filterMap HeaderValue.toStr).flatMap tokens).filter (· ≠ "")

def isUpgrade (h : HeaderMap) : Bool :=
  h.containsKey .upgrade && h.connectionTokens.any (· == "upgrade")

theorem lower_of_mem_tokens {text t : String} (ht : t ∈ tokens text) : Text.lower t = t := by
  obtain ⟨part, -, rfl⟩ := List.mem_map.mp ht
  exact Text.lower_lower _

theorem mem_connectionTokens (h : HeaderMap) (n : HeaderName) :
    n.text ∈ h.connectionTokens ↔
      ∃ v ∈ h.getAll .connection, v.toStr.isSome = true ∧ n.text ∈ tokens v.text := by
  have hne : n.text ≠ "" := by
    intro he
    have hv := n.valid
    rw [he] at hv
    exact absurd hv (by decide)
  simp only [connectionTokens, List.mem_filter, List.mem_flatMap, List.mem_filterMap, ne_eq, hne,
    not_false_eq_true, decide_true, and_true]
  constructor
  · rintro ⟨text, ⟨v, hv, ht⟩, hn⟩
    exact ⟨v, hv, by rw [ht]; rfl, by rwa [HeaderValue.text_of_toStr ht]⟩
  · rintro ⟨v, hv, hs, hn⟩
    obtain ⟨text, ht⟩ := Option.isSome_iff_exists.mp hs
    exact ⟨text, ⟨v, hv, ht⟩, by rwa [HeaderValue.text_of_toStr ht] at hn⟩

/-! ## Stripping -/

def hopByHop : List String :=
  ["connection", "keep-alive", "proxy-connection", "proxy-authenticate", "proxy-authorization",
    "te", "trailer", "transfer-encoding", "upgrade"]

/-- Remove hop-by-hop headers, including any named in `Connection`. For an upgrade, `Upgrade` is
kept and `Connection: upgrade` re-added. -/
def stripHopByHop (keepUpgrade : Bool) (h : HeaderMap) : HeaderMap :=
  let named := h.connectionTokens
  let upgrade := h.get .upgrade
  let rest := (hopByHop ++ named).foldl remove h
  match keepUpgrade, upgrade with
  | true, some value => (rest.insert .upgrade value).insert .connection .upgrade
  | _, _ => rest

theorem lower_of_mem_connectionTokens {t : String} (ht : t ∈ h.connectionTokens) :
    Text.lower t = t := by
  obtain ⟨text, -, ht⟩ := List.mem_flatMap.mp (List.mem_filter.mp ht).1
  exact lower_of_mem_tokens ht

theorem lower_removed (h : HeaderMap) :
    (hopByHop ++ h.connectionTokens).map Text.lower = hopByHop ++ h.connectionTokens := by
  have hconst : hopByHop.map Text.lower = hopByHop := by decide
  have hnamed : h.connectionTokens.map Text.lower = h.connectionTokens.map id :=
    List.map_congr_left fun t ht => lower_of_mem_connectionTokens ht
  rw [List.map_append, hconst, hnamed, List.map_id]

theorem getAll_stripHopByHop (h : HeaderMap) (n : HeaderName) :
    (stripHopByHop false h).getAll n =
      if n.text ∈ hopByHop ∨ n.text ∈ h.connectionTokens then [] else h.getAll n := by
  simp only [stripHopByHop, getAll_foldl_remove, lower_removed, List.mem_append]

theorem connectionTokens_stripHopByHop (h : HeaderMap) :
    (stripHopByHop false h).connectionTokens = [] := by
  have hgone : (stripHopByHop false h).getAll .connection = [] := by
    rw [getAll_stripHopByHop, if_pos (.inl (by decide))]
  simp [connectionTokens, hgone]

/-- A second pass finds no `Connection` header, and the other hop-by-hop headers gone. -/
theorem stripHopByHop_idem (h : HeaderMap) (n : HeaderName) :
    (stripHopByHop false (stripHopByHop false h)).getAll n = (stripHopByHop false h).getAll n := by
  rw [getAll_stripHopByHop (stripHopByHop false h), connectionTokens_stripHopByHop]
  by_cases hn : n.text ∈ hopByHop
  · rw [if_pos (.inl hn), getAll_stripHopByHop, if_pos (.inl hn)]
  · rw [if_neg (by simp [hn])]

theorem getAll_stripHopByHop_upgrade (h : HeaderMap) (n : HeaderName) :
    (stripHopByHop true h).getAll n =
      match h.get .upgrade with
      | none => (stripHopByHop false h).getAll n
      | some value =>
        if n = .connection then [.upgrade]
        else if n = .upgrade then [value]
        else (stripHopByHop false h).getAll n := by
  cases hu : h.get .upgrade with
  | none => simp [stripHopByHop, hu]
  | some value => simp only [stripHopByHop, hu, getAll_insert]

theorem containsKey_iff : h.containsKey n = true ↔ h.getAll n ≠ [] := by
  unfold containsKey getAll
  cases hl : h.fields.lookup n with
  | none => simp
  | some vs => simpa using h.nonempty n vs hl

theorem isUpgrade_stripHopByHop (keepUpgrade : Bool) (h : HeaderMap) :
    (stripHopByHop keepUpgrade h).isUpgrade = (keepUpgrade && h.containsKey .upgrade) := by
  cases keepUpgrade with
  | false => simp [isUpgrade, connectionTokens_stripHopByHop]
  | true =>
    rw [Bool.true_and, Bool.eq_iff_iff, isUpgrade, Bool.and_eq_true, containsKey_iff,
      containsKey_iff, connectionTokens, getAll_stripHopByHop_upgrade,
      getAll_stripHopByHop_upgrade]
    cases hu : h.getAll .upgrade with
    | nil =>
      have hnone : h.get .upgrade = none := by simp [get, hu]
      have hgone : (stripHopByHop false h).getAll .upgrade = [] := by
        rw [getAll_stripHopByHop, if_pos (.inl (by decide))]
      simp [hnone, hgone]
    | cons value vs =>
      have hsome : h.get .upgrade = some value := by simp [get, hu]
      have htokens : ((([HeaderValue.upgrade].filterMap HeaderValue.toStr).flatMap tokens).filter
          (· ≠ "")).any (· == "upgrade") = true := by decide
      have hne : HeaderName.upgrade ≠ .connection := by decide
      simp only [hsome, if_true, if_neg hne, htokens]
      simp

/-- Some `Connection` value has the name among its tokens. -/
def Named (h : HeaderMap) (n : HeaderName) : Prop :=
  ∃ v ∈ h.getAll .connection, n.text ∈ tokens v.text

/-- Hop-by-hop headers and those named in `Connection` are gone, all others keep their values, a
second pass changes nothing, and an upgrade gets its two headers back. -/
structure Stripped (h : HeaderMap) : Prop where
  complete : ∀ n, n.text ∈ hopByHop ∨ Named h n → (stripHopByHop false h).getAll n = []
  precise : ∀ n, ¬ (n.text ∈ hopByHop ∨ Named h n) →
    (stripHopByHop false h).getAll n = h.getAll n
  again : ∀ n, (stripHopByHop false (stripHopByHop false h)).getAll n =
    (stripHopByHop false h).getAll n
  upgrade : ∀ n, (stripHopByHop true h).getAll n =
    match h.get .upgrade with
    | none => (stripHopByHop false h).getAll n
    | some value =>
      if n = .connection then [.upgrade]
      else if n = .upgrade then [value]
      else (stripHopByHop false h).getAll n

/-- A header that only a `Connection` value outside visible ASCII names. -/
def NamedUnread (h : HeaderMap) (n : HeaderName) : Prop :=
  (∃ v ∈ h.getAll .connection, v.toStr = none ∧ n.text ∈ tokens v.text) ∧
    n.text ∉ hopByHop ∧
    ∀ v ∈ h.getAll .connection, n.text ∈ tokens v.text → v.toStr = none

theorem mem_connectionTokens_of_named (hn : Named h n) (hu : ¬ NamedUnread h n) :
    n.text ∈ hopByHop ∨ n.text ∈ h.connectionTokens := by
  by_contra hcon
  push Not at hcon
  obtain ⟨hhop, htok⟩ := hcon
  rw [mem_connectionTokens] at htok
  have hall : ∀ v ∈ h.getAll .connection, n.text ∈ tokens v.text → v.toStr = none := by
    intro v hv ht
    by_contra hs
    exact htok ⟨v, hv, Option.isSome_iff_ne_none.mpr hs, ht⟩
  obtain ⟨v, hv, ht⟩ := hn
  exact hu ⟨⟨v, hv, hall v hv ht, ht⟩, hhop, hall⟩

theorem not_mem_of_namedUnread (hu : NamedUnread h n) :
    ¬ (n.text ∈ hopByHop ∨ n.text ∈ h.connectionTokens) := by
  obtain ⟨-, hhop, hall⟩ := hu
  rintro (hn | hn)
  · exact hhop hn
  · obtain ⟨v, hv, hs, ht⟩ := (mem_connectionTokens h n).mp hn
    rw [hall v hv ht] at hs
    cases hs

/-- Stripping is complete and precise exactly on the maps without a header that only unreadable
`Connection` values name. -/
theorem stripped_iff (h : HeaderMap) :
    Stripped h ↔ ∀ n, NamedUnread h n → h.getAll n = [] := by
  constructor
  · intro hs n hu
    have hgone := hs.complete n (.inr ⟨_, hu.1.choose_spec.1, hu.1.choose_spec.2.2⟩)
    rwa [getAll_stripHopByHop, if_neg (not_mem_of_namedUnread hu)] at hgone
  · intro hclear
    refine ⟨fun n hn => ?_, fun n hn => ?_, stripHopByHop_idem h, getAll_stripHopByHop_upgrade h⟩
    · rw [getAll_stripHopByHop]
      split_ifs with hmem
      · rfl
      · -- Named but not removed: only an unreadable value can name it, so it was not there.
        rcases hn with hn | hn
        · exact absurd (.inl hn) hmem
        · by_contra hne
          exact hmem (mem_connectionTokens_of_named hn fun hu => hne (hclear n hu))
    · rw [getAll_stripHopByHop, if_neg]
      rintro (hmem | hmem)
      · exact hn (.inl hmem)
      · obtain ⟨v, hv, -, ht⟩ := (mem_connectionTokens h n).mp hmem
        exact hn (.inr ⟨v, hv, ht⟩)

/-- `Connection: x-secret, é` in Latin-1, and the header it names. -/
def secretive : HeaderMap :=
  (HeaderMap.insert ⟨∅, by simp⟩ .connection
    ⟨[120, 45, 115, 101, 99, 114, 101, 116, 44, 32, 233], by decide⟩).insert
    ⟨"x-secret", by decide⟩ ⟨[49], by decide⟩

theorem secretive_not_stripped :
    Named secretive ⟨"x-secret", by decide⟩ ∧
      (stripHopByHop false secretive).getAll ⟨"x-secret", by decide⟩ = [⟨[49], by decide⟩] ∧
      ¬ Stripped secretive := by
  have hnamed : Named secretive ⟨"x-secret", by decide⟩ :=
    ⟨⟨[120, 45, 115, 101, 99, 114, 101, 116, 44, 32, 233], by decide⟩, by decide, by decide⟩
  have hleft : (stripHopByHop false secretive).getAll ⟨"x-secret", by decide⟩ =
      [⟨[49], by decide⟩] := by decide
  refine ⟨hnamed, hleft, fun hs => ?_⟩
  rw [hs.complete _ (.inr hnamed)] at hleft
  cases hleft

end HeaderMap

end Stouter
