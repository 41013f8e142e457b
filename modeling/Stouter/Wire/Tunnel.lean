import Stouter.Wire.Frame
import Stouter.Wire.Proxy

/-! # Tunnels, direct and relayed

The answer to a `TunnelRequest` is a status byte, for a refusal followed by a
length-prefixed message. `send_and_check_tunnel` reads it on the subscriber's
side; `relay_tunnel` reads it on a reverse connection, forwards it piece by
piece and then proxies. A subscriber behind the relay reads what it would
have read from the node itself.
-/

namespace Stouter

open Streams

/-! ## Lossy text -/

def isContinuation (b : UInt8) : Bool := 0x80 ≤ b && b ≤ 0xBF

/-- Width of the character a first byte starts, or 0. -/
def utf8CharWidth (b : UInt8) : ℕ :=
  if b < 0x80 then 1
  else if 0xC2 ≤ b && b ≤ 0xDF then 2
  else if 0xE0 ≤ b && b ≤ 0xEF then 3
  else if 0xF0 ≤ b && b ≤ 0xF4 then 4
  else 0

/-- The second bytes that may follow a first byte of width 3 or 4: no overlong forms, no
surrogates, nothing above `U+10FFFF`. -/
def isSecond (b b₁ : UInt8) : Bool :=
  if b = 0xE0 then 0xA0 ≤ b₁ && b₁ ≤ 0xBF
  else if b = 0xED then 0x80 ≤ b₁ && b₁ ≤ 0x9F
  else if b = 0xF0 then 0x90 ≤ b₁ && b₁ ≤ 0xBF
  else if b = 0xF4 then 0x80 ≤ b₁ && b₁ ≤ 0x8F
  else isContinuation b₁

/-- The character of a first byte with `bits` payload bits and its continuation bytes. -/
def charOfBytes (bits : ℕ) (b : UInt8) (rest : List UInt8) : Char :=
  .ofNat (rest.foldl (fun acc c => acc * 2 ^ 6 + c.toNat % 2 ^ 6) (b.toNat % 2 ^ bits))

def replacementChar : Char := .ofNat 0xFFFD

/-- `String::from_utf8_lossy`: every longest invalid piece becomes `U+FFFD`. -/
def lossyChars : List UInt8 → List Char
  | [] => []
  | b :: rest =>
    match utf8CharWidth b, rest with
    | 1, rest => charOfBytes 7 b [] :: lossyChars rest
    | 2, b₁ :: rest₁ =>
      if isContinuation b₁ then charOfBytes 5 b [b₁] :: lossyChars rest₁
      else replacementChar :: lossyChars (b₁ :: rest₁)
    | 3, b₁ :: rest₁ =>
      if isSecond b b₁ then
        match rest₁ with
        | b₂ :: rest₂ =>
          if isContinuation b₂ then charOfBytes 4 b [b₁, b₂] :: lossyChars rest₂
          else replacementChar :: lossyChars (b₂ :: rest₂)
        | [] => [replacementChar]
      else replacementChar :: lossyChars (b₁ :: rest₁)
    | 4, b₁ :: rest₁ =>
      if isSecond b b₁ then
        match rest₁ with
        | b₂ :: rest₂ =>
          if isContinuation b₂ then
            match rest₂ with
            | b₃ :: rest₃ =>
              if isContinuation b₃ then charOfBytes 3 b [b₁, b₂, b₃] :: lossyChars rest₃
              else replacementChar :: lossyChars (b₃ :: rest₃)
            | [] => [replacementChar]
          else replacementChar :: lossyChars (b₂ :: rest₂)
        | [] => [replacementChar]
      else replacementChar :: lossyChars (b₁ :: rest₁)
    | _, rest => replacementChar :: lossyChars rest

def fromUtf8Lossy (bytes : List UInt8) : String := String.ofList (lossyChars bytes)

/-! ## The subscriber's side -/

structure Link where
  reader : Reader UInt8
  writer : Writer UInt8

inductive TunnelErr
  | sendRequest (err : FrameErr)
  | readStatus
  | readErrorLength
  | readErrorMessage
  | rejected (msg : String)
  deriving DecidableEq, Repr

def TunnelErr.display : TunnelErr → String
  | .sendRequest _ => "send tunnel request"
  | .readStatus => "read tunnel status byte"
  | .readErrorLength => "read tunnel error length"
  | .readErrorMessage => "read tunnel error message"
  | .rejected msg => s!"node rejected tunnel: {msg}"

/-- The answer of the node, up to the first byte of the tunnel. -/
def checkTunnel (r : Reader UInt8) : Except TunnelErr Unit × Reader UInt8 :=
  match r.readExact 1 with
  | none => (.error .readStatus, r)
  | some (status, r) =>
    if status ≠ [0x00] then
      match r.readExact 4 with
      | none => (.error .readErrorLength, r)
      | some (lenBuf, r) =>
        match r.readExact (fromBeBytes lenBuf).toNat with
        | none => (.error .readErrorMessage, r)
        | some (errBytes, r) => (.error (.rejected (fromUtf8Lossy errBytes)), r)
    else
      (.ok (), r)

/-- Send a tunnel request, read the status byte, and stop on an error. -/
def sendAndCheckTunnel (rmp : RmpSerde) (msg : Message) (stream : Link) :
    Except TunnelErr Unit × Link :=
  match sendMessage rmp msg stream.writer with
  | (.error err, w) => (.error (.sendRequest err), { stream with writer := w })
  | (.ok (), w) =>
    let (verdict, r) := checkTunnel stream.reader
    (verdict, ⟨r, w⟩)

/-! ## The relay -/

/-- Write a tunnel error response. Every write is attempted and its result ignored. -/
def sendTunnelError (msg : String) (w : Writer UInt8) : Writer UInt8 :=
  let b := asBytes msg
  let w := (w.writeAll [0x01]).2
  let w := (w.writeAll (toBeBytes (.ofNat b.length))).2
  let w := (w.writeAll b).2
  w.flush.2

inductive RelayErr
  | noReverse (nodeId : String)
  | forwardRequest (err : FrameErr)
  | readStatus
  | forwardStatus
  | flushStatus
  | readErrorLength
  | forwardErrorLength
  | readError
  | forwardError
  | flushError
  | rejected
  deriving DecidableEq, Repr

def RelayErr.display : RelayErr → String
  | .noReverse nodeId => s!"no idle reverse connections for node {nodeId}"
  | .forwardRequest _ => "forward tunnel request to reverse connection"
  | .readStatus => "read tunnel status from reverse connection"
  | .forwardStatus => "forward tunnel status to subscriber"
  | .flushStatus => "flush tunnel status to subscriber"
  | .readErrorLength => "read tunnel error length from reverse"
  | .forwardErrorLength => "forward tunnel error length"
  | .readError => "read tunnel error from reverse"
  | .forwardError => "forward tunnel error to subscriber"
  | .flushError => "flush tunnel error to subscriber"
  | .rejected => "NAT'd node rejected tunnel"

/-- Forward the node's refusal: its length, then its text. -/
def forwardRefusal (rev : Reader UInt8) (sub : Writer UInt8) : RelayErr × Writer UInt8 :=
  match rev.readExact 4 with
  | none => (.readErrorLength, sub)
  | some (lenBuf, rev) =>
    match sub.writeAll lenBuf with
    | (false, sub) => (.forwardErrorLength, sub)
    | (true, sub) =>
      match rev.readExact (fromBeBytes lenBuf).toNat with
      | none => (.readError, sub)
      | some (errBytes, _) =>
        match sub.writeAll errBytes with
        | (false, sub) => (.forwardError, sub)
        | (true, sub) =>
          match sub.flush with
          | (false, sub) => (.flushError, sub)
          | (true, sub) => (.rejected, sub)

/-- Read the status byte from the node and forward it, and what follows a refusal. -/
def forwardStatus (rev : Reader UInt8) (sub : Writer UInt8) :
    Except RelayErr (Reader UInt8) × Writer UInt8 :=
  match rev.readExact 1 with
  | none => (.error .readStatus, sub)
  | some (status, rev) =>
    match sub.writeAll status with
    | (false, sub) => (.error .forwardStatus, sub)
    | (true, sub) =>
      match sub.flush with
      | (false, sub) => (.error .flushStatus, sub)
      | (true, sub) =>
        if status ≠ [0x00] then
          let (err, sub) := forwardRefusal rev sub
          (.error err, sub)
        else
          (.ok rev, sub)

/-- Relay a tunnel request over the reverse connection `taken` from the pool, up to the proxy
between the two connections. -/
def relayTunnel (rmp : RmpSerde) (taken : Option Link) (subscriber : Link)
    (nodeId serviceName : String) (timestampMs : UInt64) :
    Except RelayErr (Proxy UInt8) × Writer UInt8 :=
  match taken with
  | none =>
    let err := RelayErr.noReverse nodeId
    (.error err, sendTunnelError err.display subscriber.writer)
  | some reverse =>
    match sendMessage rmp (.tunnelRequest nodeId serviceName timestampMs) reverse.writer with
    | (.error err, _) => (.error (.forwardRequest err), subscriber.writer)
    | (.ok (), reverseWriter) =>
      match forwardStatus reverse.reader subscriber.writer with
      | (.error err, w) => (.error err, w)
      | (.ok r, w) => (.ok (.start subscriber.reader w r reverseWriter), w)

/-! ## Verdicts -/

/-- The verdict that a byte sequence calls for. -/
inductive CallsFor : List UInt8 → Except TunnelErr Unit → Prop
  | silent : CallsFor [] (.error .readStatus)
  | accepted (rest : List UInt8) : CallsFor (0x00 :: rest) (.ok ())
  | cutLength {b : UInt8} {rest : List UInt8} (hb : b ≠ 0x00) (hrest : rest.length < 4) :
      CallsFor (b :: rest) (.error .readErrorLength)
  | cutMessage {b : UInt8} {len rest : List UInt8} (hb : b ≠ 0x00) (hlen : len.length = 4)
      (hrest : rest.length < (fromBeBytes len).toNat) :
      CallsFor (b :: (len ++ rest)) (.error .readErrorMessage)
  | refused {b : UInt8} {len msg rest : List UInt8} (hb : b ≠ 0x00) (hlen : len.length = 4)
      (hmsg : msg.length = (fromBeBytes len).toNat) :
      CallsFor (b :: (len ++ (msg ++ rest))) (.error (.rejected (fromUtf8Lossy msg)))

variable {r rev : Reader UInt8} {sent bytes : List UInt8} {v : Except TunnelErr Unit}

theorem exists_callsFor (bytes : List UInt8) : ∃ v, CallsFor bytes v := by
  cases bytes with
  | nil => exact ⟨_, .silent⟩
  | cons b rest =>
    by_cases hb : b = 0x00
    · subst hb
      exact ⟨_, .accepted rest⟩
    by_cases hlen : rest.length < 4
    · exact ⟨_, .cutLength hb hlen⟩
    have hlen₄ : (rest.take 4).length = 4 := List.length_take_of_le (by omega)
    rw [← List.take_append_drop 4 rest]
    by_cases hmsg : (rest.drop 4).length < (fromBeBytes (rest.take 4)).toNat
    · exact ⟨_, .cutMessage hb hlen₄ hmsg⟩
    · rw [← List.take_append_drop (fromBeBytes (rest.take 4)).toNat (rest.drop 4)]
      exact ⟨_, .refused hb hlen₄ (List.length_take_of_le (by omega))⟩

/-- The subscriber's verdict depends on the bytes only. -/
theorem checkTunnel_eq (h : CallsFor r.bytes v) : (checkTunnel r).1 = v := by
  generalize hr : r.bytes = bytes at h
  cases h with
  | silent =>
    have h₁ : r.readExact 1 = none := Reader.readExact_of_lt (by simp [hr])
    simp only [checkTunnel, h₁]
  | accepted rest =>
    obtain ⟨r₁, h₁, _⟩ := Reader.readExact_one hr
    simp [checkTunnel, h₁]
  | @cutLength b rest hb hrest =>
    obtain ⟨r₁, h₁, hr₁⟩ := Reader.readExact_one hr
    have h₂ : r₁.readExact 4 = none := Reader.readExact_of_lt (by simpa [hr₁] using hrest)
    simp [checkTunnel, h₁, hb, h₂]
  | @cutMessage b len rest hb hlen hrest =>
    obtain ⟨r₁, h₁, hr₁⟩ := Reader.readExact_one hr
    obtain ⟨r₂, h₂, hr₂⟩ := Reader.readExact_append hr₁ hlen
    have h₃ : r₂.readExact (fromBeBytes len).toNat = none :=
      Reader.readExact_of_lt (by simpa [hr₂] using hrest)
    simp [checkTunnel, h₁, hb, h₂, h₃]
  | @refused b len msg rest hb hlen hmsg =>
    obtain ⟨r₁, h₁, hr₁⟩ := Reader.readExact_one hr
    obtain ⟨r₂, h₂, hr₂⟩ := Reader.readExact_append hr₁ hlen
    obtain ⟨r₃, h₃, _⟩ := Reader.readExact_append hr₂ hmsg
    simp [checkTunnel, h₁, hb, h₂, h₃]

/-- A refusal is forwarded up to where the node's connection ends, unless the subscriber's fails
first. -/
theorem forwardRefusal_spec {b : UInt8} (sub : Writer UInt8) (h : CallsFor (b :: rev.bytes) v)
    (hb : b ≠ 0x00) :
    ∃ sent, (forwardRefusal rev sub).2.written = sub.written ++ sent ∧ sent <+: rev.bytes ∧
      (CallsFor (b :: sent) v ∨ sub.Broke (forwardRefusal rev sub).2) := by
  generalize hrev : rev.bytes = bytes at h
  cases h with
  | accepted => contradiction
  | cutLength _ hrest =>
    have h₁ : rev.readExact 4 = none := Reader.readExact_of_lt (by simpa [hrev] using hrest)
    exact ⟨[], by simp [forwardRefusal, h₁], List.nil_prefix, .inl (.cutLength hb (by decide))⟩
  | @cutMessage _ len rest _ hlen hrest =>
    obtain ⟨rev₁, h₁, hr₁⟩ := Reader.readExact_append hrev hlen
    have h₂ : rev₁.readExact (fromBeBytes len).toNat = none :=
      Reader.readExact_of_lt (by simpa [hr₁] using hrest)
    rcases sub.writeAll_cases len with ⟨sub₁, hs₁, hw₁⟩ | ⟨sub₁, sent, hs₁, hw₁, hp₁⟩
    · have hf : forwardRefusal rev sub = (.readError, sub₁) := by
        simp only [forwardRefusal, h₁, hs₁, h₂]
      have hcall : CallsFor (b :: (len ++ [])) _ :=
        .cutMessage hb hlen (by simpa using Nat.zero_lt_of_lt hrest)
      rw [List.append_nil] at hcall
      exact ⟨len, by rw [hf, hw₁], List.prefix_append _ _, .inl hcall⟩
    · have hf : forwardRefusal rev sub = (.forwardErrorLength, sub₁) := by
        simp only [forwardRefusal, h₁, hs₁]
      refine ⟨sent, by rw [hf, hw₁], hp₁.trans (List.prefix_append _ _), .inr ?_⟩
      rw [hf]
      exact broke_writeAll hs₁
  | @refused _ len msg rest _ hlen hmsg =>
    obtain ⟨rev₁, h₁, hr₁⟩ := Reader.readExact_append hrev hlen
    obtain ⟨rev₂, h₂, _⟩ := Reader.readExact_append hr₁ hmsg
    rcases sub.writeAll_cases len with ⟨sub₁, hs₁, hw₁⟩ | ⟨sub₁, sent, hs₁, hw₁, hp₁⟩
    · have hpre := List.prefix_append msg rest
      rcases sub₁.writeAll_cases msg with ⟨sub₂, hs₂, hw₂⟩ | ⟨sub₂, sent, hs₂, hw₂, hp₂⟩
      · obtain ⟨b', sub₃, hs₃, hw₃⟩ := sub₂.flush_cases
        have hcall : CallsFor (b :: (len ++ (msg ++ []))) _ := .refused hb hlen hmsg
        rw [List.append_nil] at hcall
        refine ⟨len ++ msg, ?_, (List.prefix_append_right_inj len).mpr hpre, .inl hcall⟩
        cases b' <;> simp [forwardRefusal, h₁, hs₁, h₂, hs₂, hs₃, hw₃, hw₂, hw₁]
      · have hf : forwardRefusal rev sub = (.forwardError, sub₂) := by
          simp only [forwardRefusal, h₁, hs₁, h₂, hs₂]
        refine ⟨len ++ sent, ?_, ?_, .inr ?_⟩
        · rw [hf, hw₂, hw₁, List.append_assoc]
        · exact (List.prefix_append_right_inj len).mpr (hp₂.trans hpre)
        · rw [hf]
          exact (broke_writeAll hs₂).of_suffix (suffix_writeAll hs₁)
    · have hf : forwardRefusal rev sub = (.forwardErrorLength, sub₁) := by
        simp only [forwardRefusal, h₁, hs₁]
      refine ⟨sent, by rw [hf, hw₁], hp₁.trans (List.prefix_append _ _), .inr ?_⟩
      rw [hf]
      exact broke_writeAll hs₁

/-- The subscriber gets a prefix of the node's bytes that calls for the same verdict, unless its
own connection fails; when the tunnel opens, exactly the status byte is used up. -/
theorem forwardStatus_spec (sub : Writer UInt8) (h : CallsFor rev.bytes v) :
    (∃ rev' sub', forwardStatus rev sub = (.ok rev', sub') ∧
        sub'.written = sub.written ++ [0x00] ∧ rev.bytes = 0x00 :: rev'.bytes) ∨
      ∃ err sub' sent, forwardStatus rev sub = (.error err, sub') ∧
        sub'.written = sub.written ++ sent ∧ sent <+: rev.bytes ∧
        (CallsFor sent v ∨ sub.Broke sub') := by
  cases hrev : rev.bytes with
  | nil =>
    have h₁ : rev.readExact 1 = none := Reader.readExact_of_lt (by simp [hrev])
    rw [hrev] at h
    exact .inr ⟨.readStatus, sub, [], by simp only [forwardStatus, h₁], by simp,
      List.nil_prefix, .inl h⟩
  | cons b bytes =>
    obtain ⟨rev₁, h₁, hr₁⟩ := Reader.readExact_one hrev
    rcases sub.writeAll_cases [b] with ⟨sub₁, hs₁, hw₁⟩ | ⟨sub₁, sent, hs₁, hw₁, hp₁⟩
    · obtain ⟨flushed, sub₂, hs₂, hw₂⟩ := sub₁.flush_cases
      cases flushed with
      | false =>
        refine .inr ⟨.flushStatus, sub₂, [b], ?_, by rw [hw₂, hw₁], ?_, .inr ?_⟩
        · simp only [forwardStatus, h₁, hs₁, hs₂]
        · exact List.cons_prefix_cons.mpr ⟨rfl, List.nil_prefix⟩
        · exact (broke_flush hs₂).of_suffix (suffix_writeAll hs₁)
      | true =>
        by_cases hb : b = 0x00
        · subst hb
          refine .inl ⟨rev₁, sub₂, ?_, by rw [hw₂, hw₁], by rw [hr₁]⟩
          simp [forwardStatus, h₁, hs₁, hs₂]
        · rw [hrev, ← hr₁] at h
          obtain ⟨sent, hw, hp, hcall⟩ := forwardRefusal_spec sub₂ h hb
          have hused : sub₂.answers <:+ sub.answers :=
            (suffix_flush hs₂).trans (suffix_writeAll hs₁)
          refine .inr ⟨(forwardRefusal rev₁ sub₂).1, (forwardRefusal rev₁ sub₂).2, b :: sent, ?_,
            ?_, ?_, hcall.imp_right fun hbroke => hbroke.of_suffix hused⟩
          · simp [forwardStatus, h₁, hs₁, hs₂, hb]
          · rw [hw, hw₂, hw₁, List.append_assoc, List.singleton_append]
          · exact List.cons_prefix_cons.mpr ⟨rfl, hr₁ ▸ hp⟩
    · refine .inr ⟨.forwardStatus, sub₁, sent, ?_, hw₁, ?_, .inr (broke_writeAll hs₁)⟩
      · simp only [forwardStatus, h₁, hs₁]
      · exact hp₁.trans (List.cons_prefix_cons.mpr ⟨rfl, List.nil_prefix⟩)

/-! ## Direct and relayed -/

/-- The subscriber's connection once the relay has given up, or at some moment of the proxy. -/
def Relayed : Except RelayErr (Proxy UInt8) × Writer UInt8 → Writer UInt8 → Prop
  | (.error _, w₀), w => w = w₀
  | (.ok p, _), w => ∃ p', (Proxy.runs p).Reachable p' ∧ w = p'.down.writer

/-- The message does not reach the other side whole. -/
def Unsent (rmp : RmpSerde) (stream : Link) (msg : Message) : Prop :=
  ∃ err, (sendMessage rmp msg stream.writer).1 = .error err

/-- What `relay_tunnel` leaves behind: an opened tunnel with one byte forwarded, or an end after
a prefix of the node's bytes. -/
theorem relayTunnel_spec (rmp : RmpSerde) (reverse subscriber : Link) (nodeId serviceName : String)
    (timestampMs : UInt64) (h : CallsFor reverse.reader.bytes v) :
    (∃ rev' sub' revWriter,
        relayTunnel rmp (some reverse) subscriber nodeId serviceName timestampMs =
          (.ok (.start subscriber.reader sub' rev' revWriter), sub') ∧
        sub'.written = subscriber.writer.written ++ [0x00] ∧
        reverse.reader.bytes = 0x00 :: rev'.bytes) ∨
      ∃ err sub' sent,
        relayTunnel rmp (some reverse) subscriber nodeId serviceName timestampMs =
          (.error err, sub') ∧
        sub'.written = subscriber.writer.written ++ sent ∧ sent <+: reverse.reader.bytes ∧
        (CallsFor sent v ∨ Unsent rmp reverse (.tunnelRequest nodeId serviceName timestampMs) ∨
          subscriber.writer.Broke sub') := by
  rcases hreq : sendMessage rmp (.tunnelRequest nodeId serviceName timestampMs) reverse.writer with
    ⟨err | _, revWriter⟩
  · exact .inr ⟨.forwardRequest err, subscriber.writer, [], by simp only [relayTunnel, hreq],
      by simp, List.nil_prefix, .inr (.inl ⟨err, by rw [hreq]⟩)⟩
  · rcases forwardStatus_spec subscriber.writer h with
      ⟨rev', sub', hf, hw, hr⟩ | ⟨err, sub', sent, hf, hw, hp, hcall⟩
    · exact .inl ⟨rev', sub', revWriter, by simp only [relayTunnel, hreq, hf], hw, hr⟩
    · exact .inr ⟨err, sub', sent, by simp only [relayTunnel, hreq, hf], hw, hp,
        hcall.imp_right .inr⟩

theorem opened_forwards {subscriber : Writer UInt8} {bytes : List UInt8} {ar rev' : Reader UInt8}
    {sub' bw : Writer UInt8} {p : Proxy UInt8} (hw : sub'.written = subscriber.written ++ [0x00])
    (hr : bytes = 0x00 :: rev'.bytes) (hp : (Proxy.runs (.start ar sub' rev' bw)).Reachable p) :
    p.down.Carries (subscriber.written ++ bytes) ∧
      ∃ rest, p.down.writer.written = subscriber.written ++ 0x00 :: rest ∧
        0x00 :: rest <+: bytes := by
  have hcarries : p.down.Carries (subscriber.written ++ bytes) := by
    apply Proxy.carries_down hp
    have htotal : subscriber.written ++ bytes = sub'.written ++ rev'.bytes := by
      rw [hw, hr, List.append_assoc, List.singleton_append]
    rw [htotal]
    exact Copy.carries_start rev' sub'
  obtain ⟨rest, hrest⟩ : sub'.written <+: p.down.writer.written := Proxy.written_down hp
  have hsent : p.down.writer.written = subscriber.written ++ 0x00 :: rest := by
    rw [← hrest, hw, List.append_assoc, List.singleton_append]
  have hbytes := hcarries.bytes
  rw [hsent, List.append_assoc] at hbytes
  exact ⟨hcarries, rest, hsent, _, List.append_cancel_left hbytes⟩

end Stouter
