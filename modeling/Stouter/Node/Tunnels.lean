import Stouter.Gossip.Table
import Stouter.Subscribe.ServiceIndex
import Stouter.Wire.LossyText

/-! # Tunnels through the mesh

What a daemon does with a `TunnelRequest`, on a connection of its own and on a
stream of a mux session, and what a subscriber gets to see when the request
travels through any number of relays. A connection that has failed is taken to
stay failed, as TCP connections and mux streams do: `send_tunnel_error` goes on
writing after a failure.
-/

namespace Stouter

open Streams

structure TunnelAsk where
  nodeId : String
  serviceName : String
  timestampMs : UInt64
  deriving DecidableEq, Repr

/-- A daemon when a request reaches it; `connect` is `TcpStream::connect`. -/
structure TunnelHost where
  state : SharedState
  draining : Bool
  nowMs : UInt64
  connect : String → Except String Link

/-- What ends a tunnel request before its connections are proxied. -/
inductive TunnelFailure
  | draining
  | skew (ms : UInt64)
  | unavailable (msg : String)
  | relay (err : RelayErr)
  | writeStatus
  | flushStatus
  | receive (err : FrameErr)
  | unexpected (msg : Message)
  deriving DecidableEq

/-- The text of a failure, which a refusal also sends to the client. -/
def TunnelFailure.display : TunnelFailure → String
  | .draining => "node is shutting down"
  | .skew ms => s!"tunnel request timestamp skew too large: {ms}ms"
  | .unavailable msg => msg
  | .relay err => err.display
  | .writeStatus => "write tunnel success byte"
  | .flushStatus => "flush tunnel success byte"
  | .receive _ => "recv tunnel request on mux stream"
  | .unexpected _ => "unexpected message on mux stream"

namespace TunnelHost

/-- Refuse a tunnel: send the text and end with the failure. -/
def refuse (client : Link) (failure : TunnelFailure) :
    Except TunnelFailure (Proxy UInt8) × Writer UInt8 :=
  (.error failure, sendTunnelError failure.display client.writer)

/-- Signal success to the client and start the proxy. A mux stream is flushed after the status. -/
def openTunnel (flushes : Bool) (client backend : Link) :
    Except TunnelFailure (Proxy UInt8) × Writer UInt8 :=
  match client.writer.writeAll [0x00] with
  | (false, w) => (.error .writeStatus, w)
  | (true, w) =>
    if flushes then
      match w.flush with
      | (false, w) => (.error .flushStatus, w)
      | (true, w) => (.ok (.start client.reader w backend.reader backend.writer), w)
    else (.ok (.start client.reader w backend.reader backend.writer), w)

/-- A tunnel request from `refuse_if_draining` on. `taken` is what `reverse_pool.take` gives. -/
def serveTunnel (rmp : RmpSerde) (flushes : Bool) (host : TunnelHost) (taken : Option Link)
    (client : Link) (ask : TunnelAsk) : Except TunnelFailure (Proxy UInt8) × Writer UInt8 :=
  if host.draining then refuse client .draining
  else
    let skew := absDiff host.nowMs ask.timestampMs
    if skew > maxSkewMs then refuse client (.skew skew)
    else if ask.nodeId ≠ "" ∧ ask.nodeId ≠ host.state.config.nodeId then
      match relayTunnel rmp taken client ask.nodeId ask.serviceName ask.timestampMs with
      | (.error err, w) => (.error (.relay err), w)
      | (.ok p, w) => (.ok p, w)
    else
      match connectLocalService host.connect ask.serviceName host.state with
      | .error msg => refuse client (.unavailable msg)
      | .ok backend => openTunnel flushes client backend

/-- `handle_tunnel`: a request on a connection of its own, or on a reverse connection. -/
def handleTunnel (rmp : RmpSerde) (host : TunnelHost) (taken : Option Link) (client : Link)
    (ask : TunnelAsk) : Except TunnelFailure (Proxy UInt8) × Writer UInt8 :=
  serveTunnel rmp false host taken client ask

/-- `handle_mux_stream`: a stream of a mux session, whose first message is read here. -/
def handleMuxStream (rmp : RmpSerde) (host : TunnelHost) (taken : Option Link) (stream : Link) :
    Except TunnelFailure (Proxy UInt8) × Writer UInt8 :=
  match recvMessage rmp stream.reader with
  | .error err => (.error (.receive err), stream.writer)
  | .ok (.tunnelRequest nodeId serviceName timestampMs, r) =>
    serveTunnel rmp true host taken { stream with reader := r } ⟨nodeId, serviceName, timestampMs⟩
  | .ok (other, _) => (.error (.unexpected other), stream.writer)

end TunnelHost

/-! ## What a subscriber sees -/

/-- The client's connection once the daemon has given up, or at some moment of the proxy. -/
def Shown : Except TunnelFailure (Proxy UInt8) × Writer UInt8 → Writer UInt8 → Prop
  | (.error _, w₀), w => w = w₀
  | (.ok p, _), w => ∃ p', (Proxy.runs p).Reachable p' ∧ w = p'.down.writer

/-- What a daemon shows to the client of a request, on a connection or on a mux stream. -/
def ShownBy (rmp : RmpSerde) (ask : TunnelAsk) (host : TunnelHost) (taken : Option Link)
    (client : Link) (w : Writer UInt8) : Prop :=
  Shown (host.handleTunnel rmp taken client ask) w ∨
    (∃ r, recvMessage rmp client.reader =
      .ok (.tunnelRequest ask.nodeId ask.serviceName ask.timestampMs, r)) ∧
    Shown (host.handleMuxStream rmp taken client) w

/-- The bytes on the client's connection after a request went through these daemons: the first was
asked by the client, each of the others over a reverse connection of the one before. A connection
may break before it has delivered all of them. -/
inductive Answered (rmp : RmpSerde) (ask : TunnelAsk) : List TunnelHost → List UInt8 → Prop
  | alone {host : TunnelHost} {client : Link} {w : Writer UInt8}
      (hnew : client.writer.written = []) (hlast : Lasting client.writer.answers)
      (hw : ShownBy rmp ask host none client w) : Answered rmp ask [host] w.written
  | relayed {host : TunnelHost} {hosts : List TunnelHost} {client reverse : Link}
      {w : Writer UInt8} (hrev : Answered rmp ask hosts reverse.reader.bytes)
      (hnew : client.writer.written = []) (hlast : Lasting client.writer.answers)
      (hw : ShownBy rmp ask host (some reverse) client w) :
      Answered rmp ask (host :: hosts) w.written
  | cut {hosts : List TunnelHost} {sent bytes : List UInt8} (h : Answered rmp ask hosts bytes)
      (hp : sent <+: bytes) : Answered rmp ask hosts sent

/-- The daemon serves the request itself and has connected to the service. -/
structure Opens (host : TunnelHost) (ask : TunnelAsk) (backend : Link) : Prop where
  awake : host.draining = false
  fresh : absDiff host.nowMs ask.timestampMs ≤ maxSkewMs
  named : ask.nodeId = "" ∨ ask.nodeId = host.state.config.nodeId
  connected : ∃ svc, host.state.serviceIndex.lookup (host.state.config.nodeId, ask.serviceName) =
    some svc ∧ host.connect s!"127.0.0.1:{svc.nodePort}" = .ok backend

inductive Refuses (host : TunnelHost) (ask : TunnelAsk) : TunnelFailure → Prop
  | draining (h : host.draining = true) : Refuses host ask .draining
  | skew (h : maxSkewMs < absDiff host.nowMs ask.timestampMs) :
      Refuses host ask (.skew (absDiff host.nowMs ask.timestampMs))
  | unavailable {msg : String}
      (h : connectLocalService host.connect ask.serviceName host.state = .error msg) :
      Refuses host ask (.unavailable msg)
  | noReverse (h : ask.nodeId ≠ host.state.config.nodeId) :
      Refuses host ask (.relay (.noReverse ask.nodeId))

def refusalBytes (msg : String) : List UInt8 :=
  0x01 :: (toBeBytes (.ofNat (asBytes msg).length) ++ asBytes msg)

theorem wrote_sendTunnelError {w : Writer UInt8} (h : Lasting w.answers) (msg : String) :
    Wrote w (sendTunnelError msg w) (refusalBytes msg) := by
  have hstatus := wrote_writeAll h [0x01]
  have hlen := hstatus.trans
    (wrote_writeAll hstatus.lasting (toBeBytes (.ofNat (asBytes msg).length)))
  have htext := hlen.trans (wrote_writeAll hlen.lasting (asBytes msg))
  have hflush := htext.trans (wrote_flush htext.lasting)
  rw [List.append_nil] at hflush
  exact hflush

variable {rmp : RmpSerde} {ask : TunnelAsk} {host : TunnelHost} {hosts : List TunnelHost}
  {taken : Option Link} {client : Link} {w : Writer UInt8} {flushes : Bool}

theorem opens_of_connectLocalService {backend : Link} (hawake : host.draining = false)
    (hfresh : absDiff host.nowMs ask.timestampMs ≤ maxSkewMs)
    (hnamed : ask.nodeId = "" ∨ ask.nodeId = host.state.config.nodeId)
    (h : connectLocalService host.connect ask.serviceName host.state = .ok backend) :
    Opens host ask backend := by
  refine ⟨hawake, hfresh, hnamed, ?_⟩
  unfold connectLocalService at h
  split at h
  · next svc hsvc =>
    refine ⟨svc, hsvc, ?_⟩
    unfold connectLocalPort at h
    dsimp only at h
    split at h <;> cases h
    next hconnect => exact hconnect
  · cases h

/-- Everything a daemon can do with a request: refuse it, open a tunnel or relay it. -/
theorem serveTunnel_cases (rmp : RmpSerde) (flushes : Bool) (host : TunnelHost)
    (taken : Option Link) (client : Link) (ask : TunnelAsk) :
    (∃ failure, Refuses host ask failure ∧
      host.serveTunnel rmp flushes taken client ask = TunnelHost.refuse client failure) ∨
    (∃ backend, Opens host ask backend ∧
      host.serveTunnel rmp flushes taken client ask =
        TunnelHost.openTunnel flushes client backend) ∨
    ∃ reverse, taken = some reverse ∧ ∀ w,
      Shown (host.serveTunnel rmp flushes taken client ask) w →
      Relayed (relayTunnel rmp (some reverse) client ask.nodeId ask.serviceName ask.timestampMs)
        w := by
  unfold TunnelHost.serveTunnel
  dsimp only
  split_ifs with hdraining hskew hother
  · exact .inl ⟨.draining, .draining hdraining, rfl⟩
  · exact .inl ⟨_, .skew hskew, rfl⟩
  · cases taken with
    | none => exact .inl ⟨_, .noReverse hother.2, rfl⟩
    | some reverse =>
      refine .inr (.inr ⟨reverse, rfl, fun w hw => ?_⟩)
      rcases hrel : relayTunnel rmp (some reverse) client ask.nodeId ask.serviceName
        ask.timestampMs with ⟨err | p, w₀⟩ <;> rw [hrel] at hw <;> exact hw
  · cases hconnect : connectLocalService host.connect ask.serviceName host.state with
    | error msg => exact .inl ⟨_, .unavailable hconnect, rfl⟩
    | ok backend =>
      have hnamed : ask.nodeId = "" ∨ ask.nodeId = host.state.config.nodeId := by
        by_contra hne
        exact hother (not_or.mp hne)
      exact .inr (.inl ⟨backend, opens_of_connectLocalService (by simpa using hdraining)
        (UInt64.not_lt.mp hskew) hnamed hconnect, rfl⟩)

theorem shown_openTunnel {backend : Link} (hnew : client.writer.written = [])
    (hw : Shown (TunnelHost.openTunnel flushes client backend) w) :
    w.written <+: 0x00 :: backend.reader.bytes := by
  have hopened : ∀ w₀ : Writer UInt8, w₀.written = [0x00] →
      Shown (.ok (.start client.reader w₀ backend.reader backend.writer), w₀) w →
      w.written <+: 0x00 :: backend.reader.bytes := by
    rintro w₀ hw₀ ⟨p', hp', rfl⟩
    have hstatus : w₀.written = (⟨[], []⟩ : Writer UInt8).written ++ [0x00] := hw₀
    obtain ⟨-, rest, hrest, hpre⟩ := opened_forwards hstatus rfl hp'
    rw [hrest]
    exact hpre
  unfold TunnelHost.openTunnel at hw
  rcases client.writer.writeAll_cases [0x00] with ⟨w₁, h₁, hw₁⟩ | ⟨w₁, sent, h₁, hw₁, hp⟩
  · rw [hnew, List.nil_append] at hw₁
    rw [h₁] at hw
    dsimp only at hw
    split_ifs at hw
    · obtain ⟨flushed, w₂, h₂, hw₂⟩ := w₁.flush_cases
      rw [h₂] at hw
      cases flushed with
      | false =>
        obtain rfl : w = w₂ := hw
        rw [hw₂, hw₁]
        exact List.cons_prefix_cons.mpr ⟨rfl, List.nil_prefix⟩
      | true => exact hopened w₂ (hw₂.trans hw₁) hw
    · exact hopened w₁ hw₁ hw
  · rw [h₁] at hw
    obtain rfl : w = w₁ := hw
    rw [hw₁, hnew, List.nil_append]
    exact hp.trans (List.cons_prefix_cons.mpr ⟨rfl, List.nil_prefix⟩)

theorem relayed_prefix {reverse : Link} (hnew : client.writer.written = [])
    (hw : Relayed (relayTunnel rmp (some reverse) client ask.nodeId ask.serviceName
      ask.timestampMs) w) : w.written <+: reverse.reader.bytes := by
  obtain ⟨v, hv⟩ := exists_callsFor reverse.reader.bytes
  rcases relayTunnel_spec rmp reverse client ask.nodeId ask.serviceName ask.timestampMs hv with
    ⟨rev', sub', revWriter, hrel, hsub, hr⟩ | ⟨err, sub', sent, hrel, hsub, hp, -⟩
  · rw [hrel] at hw
    obtain ⟨p', hp', rfl⟩ := hw
    obtain ⟨-, rest, hrest, hpre⟩ := opened_forwards hsub hr hp'
    rw [hrest, hnew, List.nil_append]
    exact hpre
  · rw [hrel] at hw
    obtain rfl : w = sub' := hw
    rw [hsub, hnew, List.nil_append]
    exact hp

theorem shownBy_cases (hnew : client.writer.written = []) (hlast : Lasting client.writer.answers)
    (hw : ShownBy rmp ask host taken client w) :
    (∃ failure, Refuses host ask failure ∧ w.written <+: refusalBytes failure.display) ∨
    (∃ backend, Opens host ask backend ∧ w.written <+: 0x00 :: backend.reader.bytes) ∨
    ∃ reverse, taken = some reverse ∧ w.written <+: reverse.reader.bytes := by
  -- A mux stream has its own reader, which none of the three looks at.
  obtain ⟨flushes, reader, hw⟩ : ∃ flushes reader,
      Shown (host.serveTunnel rmp flushes taken ⟨reader, client.writer⟩ ask) w := by
    rcases hw with hw | ⟨⟨r, hr⟩, hw⟩
    · exact ⟨false, client.reader, hw⟩
    · refine ⟨true, r, ?_⟩
      rw [TunnelHost.handleMuxStream, hr] at hw
      exact hw
  have hstream : (⟨reader, client.writer⟩ : Link).writer.written = [] := hnew
  rcases serveTunnel_cases rmp flushes host taken ⟨reader, client.writer⟩ ask with
    ⟨failure, hrefuses, hserve⟩ | ⟨backend, hopens, hserve⟩ | ⟨reverse, htaken, hrelayed⟩
  · rw [hserve] at hw
    obtain rfl : w = sendTunnelError failure.display client.writer := hw
    obtain ⟨sent, hsent, hp, -⟩ := (wrote_sendTunnelError hlast failure.display).sent
    rw [hsent, hnew, List.nil_append]
    exact .inl ⟨failure, hrefuses, hp⟩
  · rw [hserve] at hw
    exact .inr (.inl ⟨backend, hopens, shown_openTunnel hstream hw⟩)
  · exact .inr (.inr ⟨reverse, htaken, relayed_prefix hstream (hrelayed w hw)⟩)

/-- However many relays a request has gone through, what comes back is part of the refusal of one
of the daemons, or of the tunnel that one of them has opened. -/
theorem Answered.source {bytes : List UInt8} (h : Answered rmp ask hosts bytes) :
    (∃ host ∈ hosts, ∃ failure, Refuses host ask failure ∧
      bytes <+: refusalBytes failure.display) ∨
    ∃ host ∈ hosts, ∃ backend, Opens host ask backend ∧ bytes <+: 0x00 :: backend.reader.bytes := by
  induction h with
  | @alone host client w hnew hlast hw =>
    rcases shownBy_cases hnew hlast hw with hrefused | hopened | ⟨reverse, hnone, -⟩
    · exact .inl ⟨host, List.mem_cons_self, hrefused⟩
    · exact .inr ⟨host, List.mem_cons_self, hopened⟩
    · cases hnone
  | @relayed host hosts client reverse w hrev hnew hlast hw ih =>
    rcases shownBy_cases hnew hlast hw with hrefused | hopened | ⟨reverse', hsome, hp⟩
    · exact .inl ⟨host, List.mem_cons_self, hrefused⟩
    · exact .inr ⟨host, List.mem_cons_self, hopened⟩
    · obtain rfl := Option.some.inj hsome
      rcases ih with ⟨host', hmem, failure, hrefuses, hp'⟩ | ⟨host', hmem, backend, hopens, hp'⟩
      · exact .inl ⟨host', List.mem_cons_of_mem _ hmem, failure, hrefuses, hp.trans hp'⟩
      · exact .inr ⟨host', List.mem_cons_of_mem _ hmem, backend, hopens, hp.trans hp'⟩
  | cut h hp ih =>
    rcases ih with ⟨host, hmem, failure, hrefuses, hp'⟩ | ⟨host, hmem, backend, hopens, hp'⟩
    · exact .inl ⟨host, hmem, failure, hrefuses, hp.trans hp'⟩
    · exact .inr ⟨host, hmem, backend, hopens, hp.trans hp'⟩

/-! ## Verdicts -/

theorem checkTunnel_ok {r : Reader UInt8} (h : (checkTunnel r).1 = .ok ()) :
    r.bytes = 0x00 :: (checkTunnel r).2.bytes := by
  cases hr : r.bytes with
  | nil =>
    have hv : CallsFor r.bytes (.error .readStatus) := by
      rw [hr]
      exact .silent
    rw [checkTunnel_eq hv] at h
    cases h
  | cons b rest =>
    obtain ⟨r₁, h₁, hr₁⟩ := Reader.readExact_one hr
    by_cases hb : b = 0x00
    · subst hb
      have hsnd : (checkTunnel r).2 = r₁ := by simp [checkTunnel, h₁]
      rw [hsnd, hr₁]
    · obtain ⟨v, hv⟩ := exists_callsFor r.bytes
      rw [checkTunnel_eq hv] at h
      rw [h, hr] at hv
      cases hv
      exact absurd rfl hb

theorem text_of_refusal {bytes : List UInt8} {msg text : String} (hp : bytes <+: refusalBytes msg)
    (hfits : (asBytes msg).length < 2 ^ 32) (h : CallsFor bytes (.error (.rejected text))) :
    text = msg := by
  generalize hv : (.error (.rejected text) : Except TunnelErr Unit) = v at h
  cases h with
  | @refused b len bs rest hb hlen hbs =>
    obtain ⟨-, more, hmore⟩ := List.cons_prefix_cons.mp hp
    rw [List.append_assoc, List.append_assoc] at hmore
    obtain ⟨hhead, htail⟩ := List.append_inj hmore hlen
    rw [hhead, fromBeBytes_toBeBytes, toNat_ofNat_length hfits] at hbs
    have hpre : bs <+: asBytes msg := ⟨rest ++ more, htail⟩
    have hall : bs = asBytes msg := hpre.eq_of_length hbs
    cases hv
    rw [hall, fromUtf8Lossy_asBytes]
  | silent => cases hv
  | accepted => cases hv
  | cutLength => cases hv
  | cutMessage => cases hv

/-- A subscriber whose request went through any number of relays gets a tunnel only if the node it
named has connected to the service, and then reads the bytes of that service; and a refusal shows
it the text of a daemon on the way that refused. -/
theorem tunnel_ends_at_named_node {r : Reader UInt8} (hnode : ask.nodeId ≠ "")
    (h : Answered rmp ask hosts r.bytes)
    (hfits : ∀ host ∈ hosts, ∀ failure, Refuses host ask failure →
      (asBytes failure.display).length < 2 ^ 32) (msg : Message) (w : Writer UInt8) :
    ((sendAndCheckTunnel rmp msg ⟨r, w⟩).1 = .ok () →
      ∃ host ∈ hosts, ∃ backend, Opens host ask backend ∧
        host.state.config.nodeId = ask.nodeId ∧
        (sendAndCheckTunnel rmp msg ⟨r, w⟩).2.reader.bytes <+: backend.reader.bytes) ∧
    ∀ text, (sendAndCheckTunnel rmp msg ⟨r, w⟩).1 = .error (.rejected text) →
      ∃ host ∈ hosts, ∃ failure, Refuses host ask failure ∧ text = failure.display := by
  have hsource := h.source
  unfold sendAndCheckTunnel
  rcases hsend : sendMessage rmp msg w with ⟨err | _, w'⟩
  · refine ⟨?_, ?_⟩
    · intro hok
      cases hok
    · intro text herr
      cases herr
  · constructor
    · intro hok
      have hbytes := checkTunnel_ok hok
      rw [hbytes] at hsource
      rcases hsource with ⟨host, -, failure, -, hp⟩ | ⟨host, hmem, backend, hopens, hp⟩
      · exact absurd (List.cons_prefix_cons.mp hp).1 (by decide)
      · exact ⟨host, hmem, backend, hopens, (hopens.named.resolve_left hnode).symm,
          (List.cons_prefix_cons.mp hp).2⟩
    · intro text herr
      have herr' : (checkTunnel r).1 = .error (.rejected text) := herr
      obtain ⟨v, hv⟩ := exists_callsFor r.bytes
      rw [checkTunnel_eq hv] at herr'
      rw [herr'] at hv
      rcases hsource with ⟨host, hmem, failure, hrefuses, hp⟩ | ⟨host, -, backend, -, hp⟩
      · exact ⟨host, hmem, failure, hrefuses,
          text_of_refusal hp (hfits host hmem failure hrefuses) hv⟩
      · generalize hb : r.bytes = bytes at hv hp
        generalize hver : (.error (.rejected text) : Except TunnelErr Unit) = v' at hv
        cases hv with
        | refused hne _ _ => exact absurd (List.cons_prefix_cons.mp hp).1 hne
        | silent => cases hver
        | accepted => cases hver
        | cutLength => cases hver
        | cutMessage => cases hver

/-! ## A request through a relay -/

/-- MessagePack of one tunnel request: to the service `api` on the node `n`, at millisecond 5. -/
def apiRequest : List UInt8 :=
  [0x84, 0xa4, 0x74, 0x79, 0x70, 0x65, 0xad, 0x74, 0x75, 0x6e, 0x6e, 0x65, 0x6c, 0x52, 0x65, 0x71,
    0x75, 0x65, 0x73, 0x74, 0xa7, 0x6e, 0x6f, 0x64, 0x65, 0x5f, 0x69, 0x64, 0xa1, 0x6e, 0xac, 0x73,
    0x65, 0x72, 0x76, 0x69, 0x63, 0x65, 0x5f, 0x6e, 0x61, 0x6d, 0x65, 0xa3, 0x61, 0x70, 0x69, 0xac,
    0x74, 0x69, 0x6d, 0x65, 0x73, 0x74, 0x61, 0x6d, 0x70, 0x5f, 0x6d, 0x73, 0x05]

def apiRmp : RmpSerde where
  toVecNamed m := if m = .tunnelRequest "n" "api" 5 then some apiRequest else none
  fromSlice bytes := if bytes = apiRequest then some (.tunnelRequest "n" "api" 5) else none

def apiBackend : Link := ⟨.ofList [104, 105], .eager 65536 9⟩

def apiHost (nodeId : String) : TunnelHost where
  state := .started { Config.default with
    nodeId
    dynamicConfig := { DynamicConfig.default with
      serviceGroups := [⟨"app", [{ apiService with name := "api", nodeId := "n" }]⟩] } } ∅ .default
  draining := false
  nowMs := 5
  connect _ := .ok apiBackend

def apiAsk : TunnelAsk := ⟨"n", "api", 5⟩

/-- A connection that takes what it is given; the other side has sent nothing. -/
def quietLink : Link := ⟨.eof, .eager 65536 9⟩

theorem shownBy_of_exec {p p' : Proxy UInt8} (acts : List ProxyAct)
    (h : (host.handleTunnel rmp taken client ask).1 = .ok p)
    (hexec : Transition.exec Proxy.next p acts = some p') (hw : p'.down.writer = w) :
    ShownBy rmp ask host taken client w := by
  rcases hserve : host.handleTunnel rmp taken client ask with ⟨served, w₀⟩
  rw [hserve] at h
  refine .inl ?_
  rw [hserve, show served = .ok p from h]
  exact ⟨p', ⟨p, rfl, Transition.reaches_of_exec hexec⟩, hw.symm⟩

theorem answered_apiRelay : Answered apiRmp apiAsk [apiHost "r", apiHost "n"] [0x00, 104] := by
  have hlast : Lasting quietLink.writer.answers := by
    simp [quietLink, Writer.eager, Lasting, Answer.takes]
  have hshown : ShownBy apiRmp apiAsk (apiHost "n") none quietLink
      ⟨[0x00, 104], List.replicate 7 (.took 65536)⟩ :=
    shownBy_of_exec [.down, .down] rfl rfl rfl
  have hnode : Answered apiRmp apiAsk [apiHost "n"] (Reader.ofList [0x00, 104]).bytes :=
    .alone rfl hlast hshown
  have hrelayed : ShownBy apiRmp apiAsk (apiHost "r")
      (some ⟨.ofList [0x00, 104], .eager 65536 9⟩) quietLink
      ⟨[0x00, 104], List.replicate 6 (.took 65536)⟩ :=
    shownBy_of_exec [.down, .down] rfl rfl rfl
  exact .relayed hnode rfl hlast hrelayed

theorem fits_apiHost {nodeId : String} {failure : TunnelFailure}
    (hnode : nodeId = "r" ∨ nodeId = "n") (h : Refuses (apiHost nodeId) apiAsk failure) :
    (asBytes failure.display).length < 2 ^ 32 := by
  cases h with
  | draining h => cases h
  | skew h =>
    have hskew : absDiff (apiHost nodeId).nowMs apiAsk.timestampMs = 0 := by
      change absDiff 5 5 = 0
      decide
    rw [hskew] at h
    exact absurd h (by decide)
  | noReverse h => decide +kernel
  | unavailable h =>
    rcases hnode with rfl | rfl
    · cases h
      decide +kernel
    · cases h

/-- Asking the node `n` through a relay, a subscriber reads the first byte of its service. -/
theorem tunnel_ends_at_named_node_apiRelay :
    (sendAndCheckTunnel apiRmp (.tunnelRequest "n" "api" 5)
        ⟨.ofList [0x00, 104], .eager 65536 9⟩).1 = .ok () ∧
      ∃ host ∈ [apiHost "r", apiHost "n"], ∃ backend, Opens host apiAsk backend ∧
        host.state.config.nodeId = "n" ∧
        (sendAndCheckTunnel apiRmp (.tunnelRequest "n" "api" 5)
          ⟨.ofList [0x00, 104], .eager 65536 9⟩).2.reader.bytes <+: backend.reader.bytes := by
  have hok : (sendAndCheckTunnel apiRmp (.tunnelRequest "n" "api" 5)
      ⟨.ofList [0x00, 104], .eager 65536 9⟩).1 = .ok () := by decide +kernel
  have hfits : ∀ host ∈ [apiHost "r", apiHost "n"], ∀ failure, Refuses host apiAsk failure →
      (asBytes failure.display).length < 2 ^ 32 := by
    intro host hmem failure hrefuses
    simp only [List.mem_cons, List.not_mem_nil, or_false] at hmem
    rcases hmem with rfl | rfl
    · exact fits_apiHost (.inl rfl) hrefuses
    · exact fits_apiHost (.inr rfl) hrefuses
  have hall := tunnel_ends_at_named_node (r := .ofList [0x00, 104]) (by decide) answered_apiRelay
    hfits (.tunnelRequest "n" "api" 5) (.eager 65536 9)
  exact ⟨hok, hall.1 hok⟩

end Stouter
