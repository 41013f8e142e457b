import Stouter.Gossip.Messages
import Stouter.Streams.Basic

/-! # Message frames

`send_message` and `recv_message`: a four-byte big-endian length, then the
MessagePack payload. The sender stops at the width of the length, the
receiver at `MAX_MSG_BYTES`; a sequence of frames is read back, to the byte
and however the transport cuts it, exactly when every payload is within the
receiver's limit.
-/

namespace Stouter

open Streams

/-! ## Lengths -/

def toBeBytes (n : UInt32) : List UInt8 :=
  [.ofNat (n.toNat / 2 ^ 24), .ofNat (n.toNat / 2 ^ 16), .ofNat (n.toNat / 2 ^ 8), .ofNat n.toNat]

/-- `u32::from_be_bytes`, of four bytes. -/
def fromBeBytes (bytes : List UInt8) : UInt32 :=
  .ofNat (bytes.foldl (fun acc b => acc * 2 ^ 8 + b.toNat) 0)

@[simp] theorem length_toBeBytes (n : UInt32) : (toBeBytes n).length = 4 := rfl

@[simp] theorem fromBeBytes_toBeBytes (n : UInt32) : fromBeBytes (toBeBytes n) = n := by
  have hn := n.toNat_lt
  apply UInt32.toNat_inj.mp
  simp only [fromBeBytes, toBeBytes, List.foldl_cons, List.foldl_nil, UInt8.toNat_ofNat',
    UInt32.toNat_ofNat']
  omega

/-! ## Frames -/

/-- The functions of the `rmp_serde` crate that framing calls. -/
structure RmpSerde where
  /-- `to_vec_named`. -/
  toVecNamed : Message → Option (List UInt8)
  /-- `from_slice`. -/
  fromSlice : List UInt8 → Option Message

def RmpSerde.Inverts (rmp : RmpSerde) (msgs : List Message) : Prop :=
  ∀ m ∈ msgs, ∀ payload, rmp.toVecNamed m = some payload → rmp.fromSlice payload = some m

def RmpSerde.payloadLen (rmp : RmpSerde) (m : Message) : ℕ := ((rmp.toVecNamed m).getD []).length

/-- Maximum allowed message size: 1 MiB. -/
def maxMsgBytes : UInt32 := 1024 * 1024

inductive FrameErr
  | serialize
  | lengthOverflow
  | writeLength
  | writePayload
  | flush
  | readLength
  | tooLarge (len : UInt32)
  | readPayload
  | deserialize
  deriving DecidableEq, Repr

def FrameErr.display : FrameErr → String
  | .serialize => "serialize Message"
  | .lengthOverflow => "message too large"
  | .writeLength => "write length prefix"
  | .writePayload => "write payload"
  | .flush => "flush message"
  | .readLength => "read length prefix"
  | .tooLarge len => s!"message too large: {len} bytes"
  | .readPayload => "read payload"
  | .deserialize => "deserialize Message"

/-- Write a message as a length and its payload. -/
def sendMessage (rmp : RmpSerde) (m : Message) (w : Writer UInt8) :
    Except FrameErr Unit × Writer UInt8 :=
  match rmp.toVecNamed m with
  | none => (.error .serialize, w)
  | some payload =>
    if payload.length < UInt32.size then
      match w.writeAll (toBeBytes (.ofNat payload.length)) with
      | (false, w) => (.error .writeLength, w)
      | (true, w) =>
        match w.writeAll payload with
        | (false, w) => (.error .writePayload, w)
        | (true, w) =>
          match w.flush with
          | (false, w) => (.error .flush, w)
          | (true, w) => (.ok (), w)
    else
      (.error .lengthOverflow, w)

/-- Read one frame and decode its payload. -/
def recvMessage (rmp : RmpSerde) (r : Reader UInt8) : Except FrameErr (Message × Reader UInt8) :=
  match r.readExact 4 with
  | none => .error .readLength
  | some (lenBuf, r) =>
    let len := fromBeBytes lenBuf
    if len > maxMsgBytes then
      .error (.tooLarge len)
    else
      match r.readExact len.toNat with
      | none => .error .readPayload
      | some (payload, r) =>
        match rmp.fromSlice payload with
        | none => .error .deserialize
        | some m => .ok (m, r)

/-- One `send_message` after the other, up to the first failure. -/
def sendMessages (rmp : RmpSerde) : List Message → Writer UInt8 →
    Except FrameErr Unit × Writer UInt8
  | [], w => (.ok (), w)
  | m :: msgs, w =>
    match sendMessage rmp m w with
    | (.error err, w) => (.error err, w)
    | (.ok (), w) => sendMessages rmp msgs w

/-- `n` calls of `recv_message`, up to the first failure. -/
def recvMessages (rmp : RmpSerde) : ℕ → Reader UInt8 →
    Except FrameErr (List Message × Reader UInt8)
  | 0, r => .ok ([], r)
  | n + 1, r => do
    let (m, r) ← recvMessage rmp r
    let (msgs, r) ← recvMessages rmp n r
    return (m :: msgs, r)

/-! ## One frame -/

variable {rmp : RmpSerde} {m : Message} {msgs : List Message} {w w' : Writer UInt8}
  {r : Reader UInt8} {payload rest raw : List UInt8}

def frame (payload : List UInt8) : List UInt8 := toBeBytes (.ofNat payload.length) ++ payload

theorem sendMessage_ok (h : sendMessage rmp m w = (.ok (), w')) :
    ∃ payload, rmp.toVecNamed m = some payload ∧ payload.length < UInt32.size ∧
      w'.written = w.written ++ frame payload := by
  unfold sendMessage at h
  split at h
  · simp at h
  rename_i payload hp
  split_ifs at h with hlt
  · rcases w.writeAll_cases (toBeBytes (.ofNat payload.length)) with
      ⟨w₁, h₁, hw₁⟩ | ⟨w₁, _, h₁, _⟩
    · rcases w₁.writeAll_cases payload with ⟨w₂, h₂, hw₂⟩ | ⟨w₂, _, h₂, _⟩
      · obtain ⟨b, w₃, h₃, hw₃⟩ := w₂.flush_cases
        cases b with
        | false => simp [h₁, h₂, h₃] at h
        | true =>
          obtain rfl : w₃ = w' := by simpa [h₁, h₂, h₃] using h
          exact ⟨payload, hp, hlt, by rw [hw₃, hw₂, hw₁, frame, List.append_assoc]⟩
      · simp [h₁, h₂] at h
    · simp [h₁] at h
  · simp at h

theorem sendMessage_eager {size : ℕ} (hp : rmp.toVecNamed m = some payload)
    (hne : 4 ≤ payload.length) (hlt : payload.length < UInt32.size)
    (hsize : payload.length ≤ size) :
    sendMessage rmp m (.eager size 3) = (.ok (), ⟨frame payload, []⟩) := by
  have hbe : (toBeBytes (.ofNat payload.length)).length ≤ size := hne.trans hsize
  have hhead : toBeBytes (.ofNat payload.length) ≠ [] := List.cons_ne_nil _ _
  have hnil : payload ≠ [] := List.ne_nil_of_length_pos (by omega)
  have hanswers : (Writer.eager size 3 : Writer UInt8) =
      ⟨[], [.took size, .took size, .took size]⟩ := rfl
  simp only [sendMessage, hp, if_pos hlt, hanswers, Writer.writeAll_took hhead hbe,
    Writer.writeAll_took hnil hsize, Writer.flush, List.nil_append, frame]

theorem toNat_ofNat_length (h : payload.length < UInt32.size) :
    (UInt32.ofNat payload.length).toNat = payload.length := UInt32.toNat_ofNat_of_lt' h

theorem recvMessage_frame (hr : r.bytes = frame payload ++ rest)
    (hlen : payload.length ≤ maxMsgBytes.toNat) (hm : rmp.fromSlice payload = some m) :
    ∃ r', recvMessage rmp r = .ok (m, r') ∧ r'.bytes = rest := by
  have hsize : maxMsgBytes.toNat < UInt32.size := maxMsgBytes.toNat_lt_size
  have hnat := toNat_ofNat_length (lt_of_le_of_lt hlen hsize)
  rw [frame, List.append_assoc] at hr
  obtain ⟨r₁, h₁, hr₁⟩ := Reader.readExact_append hr (length_toBeBytes _)
  obtain ⟨r₂, h₂, hr₂⟩ := Reader.readExact_append hr₁ hnat.symm
  have hle : ¬ UInt32.ofNat payload.length > maxMsgBytes := by
    rw [gt_iff_lt, UInt32.lt_iff_toNat_lt, hnat]
    omega
  refine ⟨r₂, ?_, hr₂⟩
  simp only [recvMessage, h₁, fromBeBytes_toBeBytes, if_neg hle, h₂, hm]

/-- A frame over the limit is refused from its length alone. -/
theorem recvMessage_tooLarge (hr : r.bytes = frame payload ++ rest)
    (hlen : maxMsgBytes.toNat < payload.length) (hlt : payload.length < UInt32.size) :
    recvMessage rmp r = .error (.tooLarge (.ofNat payload.length)) := by
  rw [frame, List.append_assoc] at hr
  obtain ⟨r₁, h₁, _⟩ := Reader.readExact_append hr (length_toBeBytes _)
  have hgt : UInt32.ofNat payload.length > maxMsgBytes := by
    rwa [gt_iff_lt, UInt32.lt_iff_toNat_lt, toNat_ofNat_length hlt]
  simp only [recvMessage, h₁, fromBeBytes_toBeBytes, if_pos hgt]

/-! ## Sequences of frames -/

theorem sendMessages_cons (h : sendMessages rmp (m :: msgs) w = (.ok (), w')) :
    ∃ w₁, sendMessage rmp m w = (.ok (), w₁) ∧ sendMessages rmp msgs w₁ = (.ok (), w') := by
  unfold sendMessages at h
  split at h
  · simp at h
  · rename_i w₁ h₁
    exact ⟨w₁, h₁, h⟩

theorem recvMessages_succ {r₁ r' : Reader UInt8} {n : ℕ} (h : recvMessage rmp r = .ok (m, r₁)) :
    recvMessages rmp (n + 1) r = .ok (m :: msgs, r') ↔ recvMessages rmp n r₁ = .ok (msgs, r') := by
  have hstep : recvMessages rmp (n + 1) r =
      (recvMessages rmp n r₁).map fun (msgs, r) => (m :: msgs, r) := by
    rw [recvMessages, h]
    rfl
  rw [hstep]
  rcases recvMessages rmp n r₁ with err | ⟨msgs₁, r₂⟩ <;> simp [Except.map]

/-- What was sent is read back, in any cut and to the byte, exactly when every payload is within
the receiver's limit. -/
theorem recvMessages_sent (hinv : rmp.Inverts msgs)
    (h : sendMessages rmp msgs w = (.ok (), w')) :
    ∃ sent, w'.written = w.written ++ sent ∧ ∀ (r : Reader UInt8) (raw : List UInt8),
      r.bytes = sent ++ raw →
      ((∃ r', recvMessages rmp msgs.length r = .ok (msgs, r') ∧ r'.bytes = raw) ↔
        ∀ m ∈ msgs, rmp.payloadLen m ≤ maxMsgBytes.toNat) := by
  induction msgs generalizing w with
  | nil =>
    obtain rfl : w = w' := (Prod.mk.inj h).2
    refine ⟨[], by simp, ?_⟩
    intro r raw hr
    exact iff_of_true ⟨r, rfl, hr⟩ (by simp)
  | cons m msgs ih =>
    obtain ⟨w₁, h₁, h₂⟩ := sendMessages_cons h
    obtain ⟨payload, hp, hlt, hw₁⟩ := sendMessage_ok h₁
    obtain ⟨sent, hw, hrest⟩ := ih (fun m' hm' => hinv m' (List.mem_cons_of_mem _ hm')) h₂
    have hlen : rmp.payloadLen m = payload.length := by simp [RmpSerde.payloadLen, hp]
    refine ⟨frame payload ++ sent, by rw [hw, hw₁, List.append_assoc], ?_⟩
    intro r raw hr
    rw [List.append_assoc] at hr
    rw [List.forall_mem_cons, hlen, List.length_cons]
    by_cases hmax : payload.length ≤ maxMsgBytes.toNat
    · have hm := hinv m List.mem_cons_self payload hp
      obtain ⟨r₁, hr₁, hb₁⟩ := recvMessage_frame hr hmax hm
      simp only [recvMessages_succ hr₁, hrest r₁ raw hb₁, hmax, true_and]
    · have hbig : recvMessage rmp r = _ := recvMessage_tooLarge hr (by omega) hlt
      constructor
      · rintro ⟨r', hr', _⟩
        rw [recvMessages, hbig] at hr'
        cases hr'
      · rintro ⟨hle, _⟩
        exact absurd hle hmax

/-- Messages that were sent are received in order, with every byte after them left on the stream,
exactly when each payload is within the receiver's limit. -/
theorem frames_received_iff (hinv : rmp.Inverts msgs)
    (hsent : sendMessages rmp msgs w = (.ok (), w'))
    (hr : w.written ++ r.bytes = w'.written ++ raw) :
    (∃ r', recvMessages rmp msgs.length r = .ok (msgs, r') ∧ r'.bytes = raw) ↔
      ∀ m ∈ msgs, rmp.payloadLen m ≤ maxMsgBytes.toNat := by
  obtain ⟨sent, hw, hrecv⟩ := recvMessages_sent hinv hsent
  rw [hw, List.append_assoc] at hr
  exact hrecv r raw (List.append_cancel_left hr)

/-! ## The encoding of one variant -/

def strHead (n : ℕ) : List UInt8 :=
  if n < 32 then [.ofNat (0xa0 + n)]
  else if n < 2 ^ 8 then [0xd9, .ofNat n]
  else if n < 2 ^ 16 then [0xda, .ofNat (n / 2 ^ 8), .ofNat n]
  else 0xdb :: toBeBytes (.ofNat n)

/-- Length of the head that starts with this byte. -/
def strHeadLen (b : UInt8) : ℕ :=
  if b = 0xd9 then 2 else if b = 0xda then 3 else if b = 0xdb then 5 else 1

def asBytes (s : String) : List UInt8 := s.toByteArray.data.toList

def encodeStr (s : String) : List UInt8 := strHead (asBytes s).length ++ asBytes s

/-- A string that stands at the end of the payload. -/
def decodeStr (bytes : List UInt8) : Option String :=
  String.fromUTF8? ⟨(bytes.drop (strHeadLen (bytes.headD 0))).toArray⟩

/-- The two-entry map of a `NodeLeave`, up to the value of `id`. -/
def leaveHead : List UInt8 :=
  [0x82, 0xa4, 0x74, 0x79, 0x70, 0x65, 0xa9, 0x6e, 0x6f, 0x64, 0x65, 0x4c, 0x65, 0x61, 0x76, 0x65,
    0xa2, 0x69, 0x64]

/-- MessagePack of `NodeLeave`. -/
def leaveRmp : RmpSerde where
  toVecNamed
    | .nodeLeave id => some (leaveHead ++ encodeStr id)
    | _ => none
  fromSlice bytes :=
    if bytes.take 19 = leaveHead then (decodeStr (bytes.drop 19)).map .nodeLeave else none

theorem strHead_cons (n : ℕ) : ∃ b bs, strHead n = b :: bs ∧ strHeadLen b = bs.length + 1 := by
  unfold strHead
  split_ifs with h₁
  · refine ⟨_, _, rfl, ?_⟩
    have hne : ∀ k : UInt8, 192 ≤ k.toNat → UInt8.ofNat (0xa0 + n) ≠ k := by
      rintro k hk rfl
      rw [UInt8.toNat_ofNat'] at hk
      omega
    rw [strHeadLen, if_neg (hne _ (by decide)), if_neg (hne _ (by decide)),
      if_neg (hne _ (by decide))]
    rfl
  · exact ⟨_, _, rfl, rfl⟩
  · exact ⟨_, _, rfl, rfl⟩
  · exact ⟨_, _, rfl, rfl⟩

theorem decodeStr_encodeStr (s : String) : decodeStr (encodeStr s) = some s := by
  obtain ⟨b, bs, hb, hlen⟩ := strHead_cons (asBytes s).length
  have hdrop : (encodeStr s).drop (strHeadLen ((encodeStr s).headD 0)) = asBytes s := by
    rw [encodeStr, hb, List.cons_append, List.headD_cons, hlen, List.drop_succ_cons, List.drop_left]
  rw [decodeStr, hdrop]
  exact dif_pos s.isValidUTF8

theorem leaveRmp_inverts (msgs : List Message) : leaveRmp.Inverts msgs := by
  intro m _ payload hp
  cases m with
  | nodeLeave id =>
    obtain rfl : leaveHead ++ encodeStr id = payload := by simpa [leaveRmp] using hp
    have htake : (leaveHead ++ encodeStr id).take 19 = leaveHead := rfl
    have hdrop : (leaveHead ++ encodeStr id).drop 19 = encodeStr id := rfl
    simp only [leaveRmp, htake, hdrop, if_true, decodeStr_encodeStr, Option.map_some]
  | _ => simp [leaveRmp] at hp

/-- Two departures and the first tunnel bytes after them, in reads of one byte. -/
theorem frames_received_leaves :
    let msgs := [Message.nodeLeave "n", .nodeLeave "p"]
    let w := (sendMessages leaveRmp msgs (.eager 64 6)).2
    (∃ r', recvMessages leaveRmp 2 (.ofList (w.written ++ [0x47, 0x45])) = .ok (msgs, r') ∧
        r'.bytes = [0x47, 0x45]) ∧
      ∀ m ∈ msgs, leaveRmp.payloadLen m ≤ maxMsgBytes.toNat := by
  intro msgs w
  have hall : ∀ m ∈ msgs, leaveRmp.payloadLen m ≤ maxMsgBytes.toNat := by decide +kernel
  have hsent : sendMessages leaveRmp msgs (.eager 64 6) = (.ok (), w) := by decide +kernel
  refine ⟨(frames_received_iff (leaveRmp_inverts msgs) hsent ?_).mpr hall, hall⟩
  simp [Writer.eager]

def longLeave : Message := .nodeLeave (String.ofList (List.replicate (2 ^ 20) 'a'))

theorem length_asBytes (s : String) : (asBytes s).length = s.toByteArray.size := by
  rw [asBytes, Array.length_toList]
  rfl

theorem length_asBytes_replicate (n : ℕ) :
    (asBytes (String.ofList (List.replicate n 'a'))).length = n := by
  rw [length_asBytes, String.toByteArray_ofList]
  induction n with
  | zero => rfl
  | succ n ih =>
    have ha : ['a'].utf8Encode.size = 1 := by decide
    rw [List.replicate_succ, List.utf8Encode_cons, ByteArray.size_append, ih, ha, Nat.add_comm]

theorem payload_longLeave :
    ∃ payload, leaveRmp.toVecNamed longLeave = some payload ∧ payload.length = 1048600 := by
  refine ⟨_, rfl, ?_⟩
  have hhead : (strHead (2 ^ 20)).length = 5 := by decide
  rw [List.length_append, encodeStr, List.length_append, length_asBytes_replicate, hhead]
  rfl

/-- The sender accepts the message, and the receiver refuses its frame. -/
theorem refused_longLeave :
    leaveRmp.Inverts [longLeave] ∧
      ∃ w, sendMessages leaveRmp [longLeave] (.eager (2 ^ 21) 3) = (.ok (), w) ∧
        recvMessages leaveRmp 1 (.ofList w.written) = .error (.tooLarge 1048600) := by
  obtain ⟨payload, hp, hlen⟩ := payload_longLeave
  have hsend : sendMessage leaveRmp longLeave (.eager (2 ^ 21) 3) =
      (.ok (), ⟨frame payload, []⟩) := by
    apply sendMessage_eager hp <;> rw [hlen] <;> decide
  refine ⟨leaveRmp_inverts _, ⟨frame payload, []⟩, by rw [sendMessages, hsend]; rfl, ?_⟩
  have hbytes : (Reader.ofList (frame payload)).bytes = frame payload ++ [] := by simp
  have hrecv : recvMessage leaveRmp (.ofList (frame payload)) = _ :=
    recvMessage_tooLarge hbytes (by rw [hlen]; decide) (by rw [hlen]; decide)
  rw [recvMessages, hrecv, hlen]
  rfl

end Stouter
