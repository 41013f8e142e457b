import Stouter.Text.Basic
import Stouter.Wire.LossyText

/-! # Probing a backend

`probe` connects to a local backend and, if the service has a health path,
asks for it. It reads the twelve bytes that hold the status code, however the
backend cuts them up, and never sends a path that would add lines to its
request.
-/

namespace Stouter

open Streams

def toDigit10 (b : UInt8) : Option ℕ := if 0x30 ≤ b ∧ b ≤ 0x39 then some (b.toNat - 0x30) else none

/-- One more digit of a number that has to fit a `u16`. -/
def parseDigit (n : ℕ) (b : UInt8) : Option ℕ :=
  (toDigit10 b).bind fun d => if n * 10 + d ≤ 65535 then some (n * 10 + d) else none

def afterPlus : List UInt8 → List UInt8
  | 0x2B :: b :: bs => b :: bs
  | bs => bs

/-- `str::from_utf8` and then `parse::<u16>`: bytes that are not UTF-8 have no digits. -/
def parseU16 (bytes : List UInt8) : Option ℕ :=
  if (afterPlus bytes).isEmpty then none else (afterPlus bytes).foldlM parseDigit 0

def httpVersion : List UInt8 := [0x48, 0x54, 0x54, 0x50, 0x2F, 0x31, 0x2E]

def parseStatusCode (statusLine : List UInt8) : Option ℕ :=
  if !httpVersion.isPrefixOf statusLine || statusLine[8]? != some 0x20 then none
  else if statusLine.length < 12 then none
  else parseU16 ((statusLine.drop 9).take 3)

/-- The loop of `read_status_code`, with `left` bytes to fill. -/
def fillBuf (left : ℕ) (r : Reader UInt8) : Option (List UInt8) :=
  if left = 0 then some []
  else
    match r.read left with
    | none => none
    | some ([], _) => none
    | some (b :: bs, r) => (fillBuf (left - (bs.length + 1)) r).map (b :: bs ++ ·)
termination_by left

def readStatusCode (r : Reader UInt8) : Option ℕ := (fillBuf 12 r).bind parseStatusCode

def probeRequest (port : UInt16) (path : String) : String :=
  s!"GET {path} HTTP/1.1\r\nHost: 127.0.0.1:{port}\r\nUser-Agent: stouter-health\r\n" ++
    "Connection: close\r\n\r\n"

/-- The check inside `probe`, with what it has written to the backend. -/
def probeCheck (port : UInt16) (path : Option String) : Option Link → Option Bool × List UInt8
  | none => (none, [])
  | some link =>
    match path with
    | none => (some true, link.writer.written)
    | some path =>
      match validateHealthPath path with
      | .error _ => (none, link.writer.written)
      | .ok () =>
        match link.writer.writeAll (asBytes (probeRequest port path)) with
        | (false, w) => (none, w.written)
        | (true, w) =>
          match readStatusCode link.reader with
          | none => (none, w.written)
          | some status => (some (200 ≤ status && status < 300), w.written)

/-- `probe`, whose timeout may cut the check off. -/
def probe (port : UInt16) (path : Option String) (connected : Option Link) (timedOut : Bool) :
    Bool :=
  if timedOut then false else (probeCheck port path connected).1.getD false

/-! ## The status line -/

variable {a b c : UInt8} {r : Reader UInt8} {n : ℕ}

theorem toDigit10_lt {d : ℕ} (h : toDigit10 b = some d) : d < 10 := by
  unfold toDigit10 at h
  split_ifs at h with hb
  obtain rfl := Option.some.inj h
  have hle := UInt8.le_iff_toNat_le.mp hb.2
  simp only [UInt8.reduceToNat] at hle
  omega

theorem length_read_le {m : ℕ} {bs : List UInt8} {r' : Reader UInt8}
    (h : r.read m = some (bs, r')) : bs.length ≤ m := by
  cases r with
  | eof =>
    obtain ⟨rfl, -⟩ : [] = bs ∧ Reader.eof = r' := by simpa [Reader.read] using h
    exact Nat.zero_le m
  | broken => cases h
  | piece a as rest =>
    obtain ⟨rfl, -⟩ := Prod.mk.inj (Option.some.inj h)
    exact List.length_take_le _ _

/-- The loop fills the buffer with the first bytes, or the stream is too short. -/
theorem fillBuf_eq (left : ℕ) (r : Reader UInt8) :
    fillBuf left r = if left ≤ r.bytes.length then some (r.bytes.take left) else none := by
  induction left using Nat.strongRecOn generalizing r with
  | _ left ih =>
    unfold fillBuf
    by_cases hzero : left = 0
    · simp [hzero]
    · have hpos : 0 < left := Nat.pos_of_ne_zero hzero
      have hshort : r.bytes = [] → ¬ left ≤ r.bytes.length := by
        intro hnil
        rw [hnil, List.length_nil]
        omega
      rw [if_neg hzero]
      rcases hr : r.read left with _ | ⟨_ | ⟨b, bs⟩, r'⟩
      · have hnil : r.bytes = [] := by
          cases r with
          | broken => rfl
          | eof => cases hr
          | piece a as rest => cases hr
        rw [if_neg (hshort hnil)]
      · rw [if_neg (hshort ((Reader.read_spec hpos hr).2 rfl))]
      · obtain ⟨hbytes, -⟩ := Reader.read_spec hpos hr
        have hle : bs.length + 1 ≤ left := length_read_le hr
        have hlen : r.bytes.length = bs.length + 1 + r'.bytes.length := by
          rw [hbytes, List.length_append, List.length_cons]
        dsimp only
        rw [ih _ (by omega) r', hlen, hbytes]
        by_cases hfit : left ≤ bs.length + 1 + r'.bytes.length
        · rw [if_pos hfit, if_pos (by omega), Option.map_some, List.take_append,
            List.take_of_length_le (l := b :: bs) hle]
          rfl
        · rw [if_neg hfit, if_neg (by omega), Option.map_none]

theorem toDigit10_eq_two : toDigit10 a = some 2 ↔ a = 0x32 := by
  constructor
  · intro h
    unfold toDigit10 at h
    split_ifs at h with ha
    have hval : a.toNat - 0x30 = 2 := Option.some.inj h
    have hle := UInt8.le_iff_toNat_le.mp ha.1
    simp only [UInt8.reduceToNat] at hle
    apply UInt8.toNat_inj.mp
    simp only [UInt8.reduceToNat]
    omega
  · rintro rfl
    decide

theorem parseDigit_eq {m : ℕ} (hn : n ≤ 99) :
    parseDigit n b = some m ↔ ∃ d, toDigit10 b = some d ∧ m = n * 10 + d := by
  unfold parseDigit
  cases hd : toDigit10 b with
  | none => simp
  | some d =>
    have hlt := toDigit10_lt hd
    have hfit : n * 10 + d ≤ 65535 := by omega
    simp [hfit, eq_comm]

theorem parseU16_plus (h : parseU16 [0x2B, b, c] = some n) : n < 100 := by
  obtain ⟨m, hm, hn⟩ := Option.bind_eq_some_iff.mp
    (show (parseDigit 0 b).bind (fun m => (parseDigit m c).bind some) = some n from h)
  obtain ⟨k, hk, heq⟩ := Option.bind_eq_some_iff.mp hn
  obtain rfl := Option.some.inj heq
  obtain ⟨d, hd, rfl⟩ := (parseDigit_eq (by decide)).mp hm
  have hlt := toDigit10_lt hd
  obtain ⟨e, he, rfl⟩ := (parseDigit_eq (by omega)).mp hk
  have hlt' := toDigit10_lt he
  omega

theorem parseU16_three (ha : a ≠ 0x2B) : parseU16 [a, b, c] = some n ↔
    ∃ d e f, toDigit10 a = some d ∧ toDigit10 b = some e ∧ toDigit10 c = some f ∧
      n = (d * 10 + e) * 10 + f := by
  have hdigits : afterPlus [a, b, c] = [a, b, c] := by
    unfold afterPlus
    split
    · next heq => exact absurd (List.cons.inj heq).1 ha
    · rfl
  have hfold : parseU16 [a, b, c] =
      (parseDigit 0 a).bind fun m => (parseDigit m b).bind fun k => (parseDigit k c).bind some := by
    rw [parseU16, hdigits]
    rfl
  rw [hfold]
  constructor
  · intro h
    obtain ⟨m, hm, h⟩ := Option.bind_eq_some_iff.mp h
    obtain ⟨k, hk, h⟩ := Option.bind_eq_some_iff.mp h
    obtain ⟨l, hl, heq⟩ := Option.bind_eq_some_iff.mp h
    obtain rfl := Option.some.inj heq
    obtain ⟨d, hd, rfl⟩ := (parseDigit_eq (by decide)).mp hm
    have hlt := toDigit10_lt hd
    obtain ⟨e, he, rfl⟩ := (parseDigit_eq (by omega)).mp hk
    have hlt' := toDigit10_lt he
    obtain ⟨f, hf, rfl⟩ := (parseDigit_eq (by omega)).mp hl
    exact ⟨d, e, f, hd, he, hf, by omega⟩
  · rintro ⟨d, e, f, hd, he, hf, rfl⟩
    have hlt := toDigit10_lt hd
    have hlt' := toDigit10_lt he
    rw [(parseDigit_eq (m := d) (by decide)).mpr ⟨d, hd, by omega⟩, Option.bind_some,
      (parseDigit_eq (m := d * 10 + e) (by omega)).mpr ⟨e, he, rfl⟩, Option.bind_some,
      (parseDigit_eq (m := (d * 10 + e) * 10 + f) (by omega)).mpr ⟨f, hf, rfl⟩]
    rfl

theorem parseU16_success : (∃ n, parseU16 [a, b, c] = some n ∧ 200 ≤ n ∧ n < 300) ↔
    a = 0x32 ∧ (toDigit10 b).isSome ∧ (toDigit10 c).isSome := by
  by_cases ha : a = 0x2B
  · subst ha
    constructor
    · rintro ⟨n, hn, hle, -⟩
      have hlt := parseU16_plus hn
      omega
    · rintro ⟨htwo, -⟩
      exact absurd htwo (by decide)
  · constructor
    · rintro ⟨n, hn, hle, hlt⟩
      obtain ⟨d, e, f, hd, he, hf, rfl⟩ := (parseU16_three ha).mp hn
      have hd' := toDigit10_lt hd
      have he' := toDigit10_lt he
      have hf' := toDigit10_lt hf
      obtain rfl : d = 2 := by omega
      exact ⟨toDigit10_eq_two.mp hd, by simp [he], by simp [hf]⟩
    · rintro ⟨rfl, hb, hc⟩
      obtain ⟨e, he⟩ := Option.isSome_iff_exists.mp hb
      obtain ⟨f, hf⟩ := Option.isSome_iff_exists.mp hc
      have he' := toDigit10_lt he
      have hf' := toDigit10_lt hf
      exact ⟨(2 * 10 + e) * 10 + f, (parseU16_three ha).mpr ⟨2, e, f, by decide, he, hf, rfl⟩,
        by omega, by omega⟩

/-- The answer of a healthy backend: its first bytes are `HTTP/1.`, any byte, a blank, a `2` and
two more digits. -/
def Answers2xx (bytes : List UInt8) : Prop :=
  ∃ x b c, (toDigit10 b).isSome ∧ (toDigit10 c).isSome ∧
    httpVersion ++ [x, 0x20, 0x32, b, c] <+: bytes

theorem parseStatusCode_twelve {x s : UInt8} : parseStatusCode (httpVersion ++ [x, s, a, b, c]) =
    if s = 0x20 then parseU16 [a, b, c] else none := by
  by_cases hs : s = 0x20
  · subst hs
    rfl
  · have hget : (httpVersion ++ [x, s, a, b, c])[8]? = some s := rfl
    have hne : (some s != some 0x20) = true := by simpa using hs
    rw [parseStatusCode, hget, hne, Bool.or_true, if_pos rfl, if_neg hs]

theorem readStatusCode_success : (∃ n, readStatusCode r = some n ∧ 200 ≤ n ∧ n < 300) ↔
    Answers2xx r.bytes := by
  rw [readStatusCode, fillBuf_eq]
  constructor
  · rintro ⟨n, hn, hrange⟩
    split_ifs at hn with hlen
    swap
    · cases hn
    have hcode : parseStatusCode (r.bytes.take 12) = some n := hn
    have hversion : httpVersion <+: r.bytes.take 12 := by
      unfold parseStatusCode at hcode
      split_ifs at hcode with hbad
      simp only [Bool.or_eq_true, not_or, Bool.not_eq_true, Bool.not_eq_false'] at hbad
      exact List.isPrefixOf_iff_prefix.mp hbad.1
    obtain ⟨tail, htail⟩ := hversion
    have htail_len : tail.length = 5 := by
      have hsum := congrArg List.length htail
      rw [List.length_append, List.length_take, Nat.min_eq_left hlen] at hsum
      have hseven : httpVersion.length = 7 := rfl
      omega
    obtain ⟨x, s, a, b, c, rfl⟩ : ∃ x s a b c, tail = [x, s, a, b, c] := by
      match tail, htail_len with
      | [x, s, a, b, c], _ => exact ⟨x, s, a, b, c, rfl⟩
    rw [← htail, parseStatusCode_twelve] at hcode
    split_ifs at hcode with hs
    obtain ⟨rfl, hb, hc⟩ := parseU16_success.mp ⟨n, hcode, hrange⟩
    subst hs
    exact ⟨x, b, c, hb, hc, htail ▸ List.take_prefix 12 r.bytes⟩
  · rintro ⟨x, b, c, hb, hc, rest, hbytes⟩
    obtain ⟨n, hn, hrange⟩ := parseU16_success.mpr ⟨rfl, hb, hc⟩
    have htake : r.bytes.take 12 = httpVersion ++ [x, 0x20, 0x32, b, c] := by
      rw [← hbytes]
      rfl
    have hlen : 12 ≤ r.bytes.length := by
      rw [← hbytes]
      simp [httpVersion]
    refine ⟨n, ?_, hrange⟩
    rw [if_pos hlen, Option.bind_some, htake, parseStatusCode_twelve, if_pos rfl, hn]

/-! ## What is sent -/

variable {path : String} {port : UInt16}

theorem validateHealthPath_ok (h : validateHealthPath path = .ok ()) :
    ∀ c ∈ path.toList, forbiddenInPath c = false := by
  unfold validateHealthPath at h
  split_ifs at h with _ hany
  intro c hc
  by_contra hbad
  exact hany (List.any_eq_true.mpr ⟨c, hc, by simpa using hbad⟩)

theorem not_mem_port {c : Char} (hc : c.isDigit = false) : c ∉ (toString port).toList := by
  intro hmem
  have hdigits : (toString port).toList = Nat.toDigits 10 port.toNat := String.toList_ofList
  rw [hdigits] at hmem
  have hdigit := Nat.isDigit_of_mem_toDigits (by decide) (by decide) hmem
  rw [hdigit] at hc
  cases hc

theorem not_mem_path {c : Char} (h : validateHealthPath path = .ok ())
    (hc : forbiddenInPath c = true) : c ∉ path.toList := by
  intro hmem
  rw [validateHealthPath_ok h c hmem] at hc
  cases hc

theorem probeRequest_eq : probeRequest port path =
    "GET " ++ path ++ " HTTP/1.1\r" ++ String.singleton '\n' ++
      ("Host: 127.0.0.1:" ++ toString port ++ "\r" ++ String.singleton '\n' ++
        ("User-Agent: stouter-health\r" ++ String.singleton '\n' ++
          ("Connection: close\r" ++ String.singleton '\n' ++
            ("\r" ++ String.singleton '\n' ++ "")))) := by
  have hrequest : probeRequest port path = "GET " ++ path ++ " HTTP/1.1\r\nHost: 127.0.0.1:" ++
      toString port ++ "\r\nUser-Agent: stouter-health\r\n" ++ "Connection: close\r\n\r\n" := rfl
  apply String.toList_injective
  simp [hrequest]

/-- A path that passed the check is the whole target of the one request line. -/
theorem split_probeRequest (h : validateHealthPath path = .ok ()) :
    Text.split '\n' (probeRequest port path) =
      ["GET " ++ path ++ " HTTP/1.1\r", "Host: 127.0.0.1:" ++ toString port ++ "\r",
        "User-Agent: stouter-health\r", "Connection: close\r", "\r", ""] ∧
    Text.split ' ' ("GET " ++ path ++ " HTTP/1.1\r") = ["GET", path, "HTTP/1.1\r"] := by
  have hport : '\n' ∉ (toString port).toList := not_mem_port (by decide)
  have hpath : '\n' ∉ path.toList := not_mem_path h (by decide)
  have htarget : ' ' ∉ path.toList := not_mem_path h (by decide)
  constructor
  · rw [probeRequest_eq, Text.split_append (by simpa using hpath),
      Text.split_append (by simpa using hport), Text.split_append (by decide),
      Text.split_append (by decide), Text.split_append (by decide),
      Text.split_of_not_mem (by decide)]
  · have hline : "GET " ++ path ++ " HTTP/1.1\r" = "GET" ++ String.singleton ' ' ++
        (path ++ String.singleton ' ' ++ "HTTP/1.1\r") := by
      apply String.toList_injective
      simp
    rw [hline, Text.split_append (by decide), Text.split_append htarget,
      Text.split_of_not_mem (by decide)]

/-! ## The verdict -/

variable {link : Link}

theorem probeCheck_success {p : String} : (probeCheck port (some p) (some link)).1 = some true ↔
    validateHealthPath p = .ok () ∧
      (link.writer.writeAll (asBytes (probeRequest port p))).1 = true ∧
        Answers2xx link.reader.bytes := by
  rw [← readStatusCode_success, probeCheck]
  rcases validateHealthPath p with err | ⟨⟩
  · simp
  · rcases link.writer.writeAll (asBytes (probeRequest port p)) with ⟨_ | _, w⟩
    · simp
    · cases readStatusCode link.reader with
      | none => simp
      | some status => simp

theorem probeCheck_sent (path : Option String) (link : Link) :
    ∃ sent, (probeCheck port path (some link)).2 = link.writer.written ++ sent ∧
      (sent = [] ∨ ∃ p, path = some p ∧ validateHealthPath p = .ok () ∧
        sent <+: asBytes (probeRequest port p)) := by
  cases path with
  | none => exact ⟨[], (List.append_nil _).symm, .inl rfl⟩
  | some p =>
    cases hp : validateHealthPath p with
    | error err => exact ⟨[], by simp [probeCheck, hp], .inl rfl⟩
    | ok u =>
      rcases Writer.writeAll_cases (asBytes (probeRequest port p)) link.writer with
        ⟨w, hw, hwritten⟩ | ⟨w, sent, hw, hwritten, hsent⟩
      · refine ⟨asBytes (probeRequest port p), ?_, .inr ⟨p, rfl, hp, List.prefix_rfl⟩⟩
        rw [← hwritten]
        cases hstatus : readStatusCode link.reader with
        | none => simp [probeCheck, hp, hw, hstatus]
        | some status => simp [probeCheck, hp, hw, hstatus]
      · refine ⟨sent, ?_, .inr ⟨p, rfl, hp, hsent⟩⟩
        rw [← hwritten]
        simp [probeCheck, hp, hw]

/-- A probe succeeds if, in time, the backend accepts the connection and, where there is a path,
takes the request for it and answers with a success, cut into whatever pieces. The backend is never
sent anything but the beginning of one request with the path as its target. -/
theorem probe_exact (port : UInt16) (path : Option String) (connected : Option Link)
    (timedOut : Bool) :
    (probe port path connected timedOut = true ↔
      timedOut = false ∧ ∃ link, connected = some link ∧ ∀ p, path = some p →
        validateHealthPath p = .ok () ∧
          (link.writer.writeAll (asBytes (probeRequest port p))).1 = true ∧
            Answers2xx link.reader.bytes) ∧
    ∀ link, connected = some link →
      ∃ sent, (probeCheck port path connected).2 = link.writer.written ++ sent ∧
        (sent = [] ∨ ∃ p, path = some p ∧ sent <+: asBytes (probeRequest port p) ∧
          Text.split '\n' (probeRequest port p) =
            ["GET " ++ p ++ " HTTP/1.1\r", "Host: 127.0.0.1:" ++ toString port ++ "\r",
              "User-Agent: stouter-health\r", "Connection: close\r", "\r", ""] ∧
          Text.split ' ' ("GET " ++ p ++ " HTTP/1.1\r") = ["GET", p, "HTTP/1.1\r"]) := by
  constructor
  · have hgetD : ∀ o : Option Bool, o.getD false = true ↔ o = some true := by
      rintro (_ | _ | _) <;> simp
    cases timedOut with
    | true => simp [probe]
    | false =>
      rw [probe, if_neg Bool.false_ne_true, hgetD]
      cases connected with
      | none => simp [probeCheck]
      | some link =>
        cases path with
        | none => simp [probeCheck]
        | some p => simp [probeCheck_success]
  · rintro link rfl
    obtain ⟨sent, hwritten, rfl | ⟨p, rfl, hp, hsent⟩⟩ := probeCheck_sent path link
    · exact ⟨[], hwritten, .inl rfl⟩
    · exact ⟨sent, hwritten, .inr ⟨p, rfl, hsent, split_probeRequest hp⟩⟩

end Stouter
