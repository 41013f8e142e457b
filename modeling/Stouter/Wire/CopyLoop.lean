import Mathlib.Data.List.Induction
import Stouter.Files.Basic
import Stouter.Wire.Proxy

/-! # The copy loop and its buffer

`copy_then_shutdown` with the buffer it reuses and the range of it that is
still to be written, driven by any answers to its calls. The calls are
recorded; `copyThenShutdown_exact` says what their record looks like in every
state of every run.
-/

namespace Stouter

open Streams Files

inductive IoKind
  | read
  | write
  | flush
  | shutdown
  deriving DecidableEq, Repr

/-- An answer to the call a loop waits for. `read []` is the end of the stream. -/
inductive IoAnswer
  | read (bytes : List UInt8)
  | wrote (n : ℕ)
  | done
  | error (e : ErrorKind)
  deriving DecidableEq, Repr

/-- A call that has returned, with the bytes it moved. -/
inductive IoCall
  | read (bytes : List UInt8)
  | write (bytes : List UInt8)
  | flush
  | shutdown
  | failed (kind : IoKind) (e : ErrorKind)
  deriving DecidableEq, Repr

/-- The await a loop stands at, or its result. -/
inductive CopyPoint
  | reading
  | writing (chunk : Slice bufSize)
  | flushing
  | closing
  | returned (result : Except ErrorKind Unit)

structure CopyLoop where
  buf : Buffer UInt8 bufSize
  point : CopyPoint
  calls : List IoCall

namespace CopyLoop

def start : CopyLoop := ⟨⟨List.replicate bufSize 0, List.length_replicate⟩, .reading, []⟩

def after (s : CopyLoop) (call : IoCall) (point : CopyPoint) : CopyLoop :=
  { s with point, calls := s.calls ++ [call] }

def fail (s : CopyLoop) (kind : IoKind) (e : ErrorKind) : CopyLoop :=
  s.after (.failed kind e) (.returned (.error e))

/-- `copy_then_shutdown` up to its next await, given the answer to the present one. -/
def copyThenShutdown (s : CopyLoop) (answer : IoAnswer) : Option CopyLoop :=
  match s.point, answer with
  | .reading, .error e => some (s.fail .read e)
  | .reading, .read bytes =>
    if h : bytes.length ≤ bufSize then
      let s := { s with buf := s.buf.fill bytes h }
      if bytes.length = 0 then some (s.after (.read bytes) .closing)
      else some (s.after (.read bytes) (.writing (.upTo bytes.length h)))
    else none
  | .writing _, .error e => some (s.fail .write e)
  | .writing chunk, .wrote written =>
    if h : written ≤ chunk.length then
      let call := .write ((chunk.read s.buf).take written)
      if written = 0 then some (s.after call (.returned (.error .writeZero)))
      else
        let chunk := chunk.since written h
        some (s.after call (if chunk.length = 0 then .flushing else .writing chunk))
    else none
  | .flushing, .error e => some (s.fail .flush e)
  | .flushing, .done => some (s.after .flush .reading)
  | .closing, .error e => some (s.fail .shutdown e)
  | .closing, .done => some (s.after .shutdown (.returned (.ok ())))
  | _, _ => none

end CopyLoop

/-! ## What a record of calls says -/

namespace IoCall

def delivered : IoCall → List UInt8
  | .read bytes => bytes
  | _ => []

def taken : IoCall → List UInt8
  | .write bytes => bytes
  | _ => []

def error? : IoCall → Option ErrorKind
  | .write [] => some .writeZero
  | .failed _ e => some e
  | _ => none

end IoCall

namespace CopyLoop

def delivered (calls : List IoCall) : List UInt8 := calls.flatMap IoCall.delivered

def written (calls : List IoCall) : List UInt8 := calls.flatMap IoCall.taken

/-- One chunk: read, written in pieces and flushed. -/
def round (pieces : List (List UInt8)) : List IoCall :=
  .read pieces.flatten :: (pieces.map .write ++ [.flush])

/-- Pieces of a chunk, none of them empty. -/
def Pieces (pieces : List (List UInt8)) : Prop := ∀ piece ∈ pieces, piece ≠ []

/-- Any number of chunks, each read, written whole and flushed before the next. -/
def Rounds (calls : List IoCall) : Prop :=
  ∃ rounds : List (List (List UInt8)), (∀ pieces ∈ rounds, pieces ≠ [] ∧ Pieces pieces) ∧
    calls = rounds.flatMap round

/-- What a loop that returned without an error has done. -/
structure Complete (calls : List IoCall) : Prop where
  rounds : ∃ before, Rounds before ∧ calls = before ++ [.read [], .shutdown]
  written : written calls = delivered calls
  once : calls.count .shutdown = 1

/-- What a loop that returned an error has done: only its last call failed, there was no shutdown,
and one was tried only when all bytes were written and flushed. -/
structure CutShort (e : ErrorKind) (calls : List IoCall) : Prop where
  last : ∃ before call, calls = before ++ [call] ∧ call.error? = some e ∧
    ∀ c ∈ before, c.error? = none
  no_shutdown : .shutdown ∉ calls
  tried : ∀ e', .failed .shutdown e' ∈ calls →
    ∃ before, Rounds before ∧ calls = before ++ [.read [], .failed .shutdown e']

variable {calls before : List IoCall} {pieces : List (List UInt8)} {piece rest bytes : List UInt8}
  {call : IoCall} {e : ErrorKind}

@[simp] theorem delivered_append (calls calls' : List IoCall) :
    delivered (calls ++ calls') = delivered calls ++ delivered calls' := List.flatMap_append

@[simp] theorem written_append (calls calls' : List IoCall) :
    written (calls ++ calls') = written calls ++ written calls' := List.flatMap_append

@[simp] theorem delivered_writes (pieces : List (List UInt8)) :
    delivered (pieces.map .write) = [] := by
  induction pieces with
  | nil => rfl
  | cons piece pieces ih => exact ih

@[simp] theorem written_writes (pieces : List (List UInt8)) :
    written (pieces.map .write) = pieces.flatten := by
  induction pieces with
  | nil => rfl
  | cons piece pieces ih =>
    change piece ++ written (pieces.map .write) = _
    rw [ih, List.flatten_cons]

theorem length_pieces (h : Pieces pieces) : pieces.length ≤ pieces.flatten.length := by
  induction pieces with
  | nil => simp
  | cons piece pieces ih =>
    have hpos := List.length_pos_of_ne_nil (h piece (by simp))
    have hle := ih fun p hp => h p (by simp [hp])
    simp only [List.length_cons, List.flatten_cons, List.length_append]
    omega

/-- Calls that were all answered without an error, with the bytes read and not yet written. -/
structure Underway (rest : List UInt8) (calls : List IoCall) : Prop where
  bytes : written calls ++ rest = delivered calls
  fine : ∀ c ∈ calls, c.error? = none
  no_shutdown : .shutdown ∉ calls

theorem Underway.chunk (h : Underway [] before) (hp : Pieces pieces) :
    Underway rest (before ++ .read (pieces.flatten ++ rest) :: pieces.map .write) := by
  have hbytes := h.bytes
  rw [List.append_nil] at hbytes
  refine ⟨?_, ?_, ?_⟩
  · rw [← List.singleton_append, written_append, written_append, delivered_append,
      delivered_append, written_writes, delivered_writes, hbytes]
    simp [written, delivered, IoCall.taken, IoCall.delivered]
  · intro c hc
    rcases List.mem_append.mp hc with hc | hc
    · exact h.fine c hc
    · rcases List.mem_cons.mp hc with rfl | hc
      · rfl
      · obtain ⟨piece, hmem, rfl⟩ := List.mem_map.mp hc
        cases piece with
        | nil => exact absurd rfl (hp [] hmem)
        | cons b bs => rfl
  · simpa using h.no_shutdown

theorem Underway.snoc (h : Underway [] calls) (hd : call.delivered = []) (ht : call.taken = [])
    (he : call.error? = none) (hs : call ≠ .shutdown) : Underway [] (calls ++ [call]) := by
  refine ⟨?_, ?_, ?_⟩
  · simpa [written, delivered, hd, ht] using h.bytes
  · intro c hc
    rcases List.mem_append.mp hc with hc | hc
    · exact h.fine c hc
    · rw [List.mem_singleton.mp hc, he]
  · simpa [hs.symm] using h.no_shutdown

theorem rounds_nil : Rounds [] := ⟨[], by simp, rfl⟩

theorem Rounds.snoc (h : Rounds before) (hne : pieces ≠ []) (hp : Pieces pieces) :
    Rounds (before ++ round pieces) := by
  obtain ⟨rounds, hrounds, rfl⟩ := h
  refine ⟨rounds ++ [pieces], ?_, by simp⟩
  intro ps hps
  rcases List.mem_append.mp hps with hps | hps
  · exact hrounds ps hps
  · rw [List.mem_singleton.mp hps]
    exact ⟨hne, hp⟩

/-- Whole rounds are best taken apart at their end. -/
theorem Rounds.induction {motive : List IoCall → Prop} (nil : motive [])
    (snoc : ∀ before pieces, pieces ≠ [] → Pieces pieces → motive before →
      motive (before ++ round pieces)) (h : Rounds calls) : motive calls := by
  obtain ⟨rounds, hrounds, rfl⟩ := h
  induction rounds using List.reverseRecOn with
  | nil => exact nil
  | append_singleton rounds pieces ih =>
    obtain ⟨hne, hp⟩ := hrounds pieces (by simp)
    rw [List.flatMap_append, List.flatMap_singleton]
    exact snoc _ pieces hne hp (ih fun ps hps => hrounds ps (by simp [hps]))

theorem Rounds.underway (h : Rounds calls) : Underway [] calls := by
  refine h.induction (motive := Underway []) ⟨rfl, by simp, by simp⟩ ?_
  intro before pieces hne hp ih
  have hchunk : Underway [] (before ++ .read (pieces.flatten ++ []) :: pieces.map .write) :=
    ih.chunk hp
  rw [List.append_nil] at hchunk
  have hround : Underway [] ((before ++ .read pieces.flatten :: pieces.map .write) ++ [.flush]) :=
    hchunk.snoc rfl rfl rfl (by simp)
  rwa [List.append_assoc] at hround

theorem Rounds.length_le (h : Rounds calls) : calls.length ≤ 3 * (delivered calls).length := by
  refine h.induction (motive := fun calls => calls.length ≤ 3 * (delivered calls).length) ?_ ?_
  · exact Nat.zero_le _
  intro before pieces hne hp ih
  have hpos := List.length_pos_of_ne_nil hne
  have hle := length_pieces hp
  have hround : (delivered (round pieces)).length = pieces.flatten.length := by
    rw [round, ← List.singleton_append, delivered_append, delivered_append, delivered_writes]
    simp [delivered, IoCall.delivered]
  rw [delivered_append, List.length_append, List.length_append, hround]
  simp only [round, List.length_cons, List.length_append, List.length_map, List.length_nil]
  omega

/-! ## A chunk being written -/

/-- Whole rounds, and a chunk of which the rest is still to be written. -/
def InRound (rest : List UInt8) (calls : List IoCall) : Prop :=
  ∃ before pieces, Rounds before ∧ Pieces pieces ∧ pieces.flatten ++ rest ≠ [] ∧
    calls = before ++ .read (pieces.flatten ++ rest) :: pieces.map .write

theorem Rounds.read (h : Rounds calls) (hne : bytes ≠ []) :
    InRound bytes (calls ++ [.read bytes]) :=
  ⟨calls, [], h, by rintro p ⟨⟩, hne, rfl⟩

theorem InRound.write (h : InRound (piece ++ rest) calls) (hne : piece ≠ []) :
    InRound rest (calls ++ [.write piece]) := by
  obtain ⟨before, pieces, hb, hp, hchunk, rfl⟩ := h
  have hsplit : (pieces ++ [piece]).flatten ++ rest = pieces.flatten ++ (piece ++ rest) := by
    simp
  refine ⟨before, pieces ++ [piece], hb, ?_, by rwa [hsplit], ?_⟩
  · intro p hmem
    rcases List.mem_append.mp hmem with hmem | hmem
    · exact hp p hmem
    · rwa [List.mem_singleton.mp hmem]
  · rw [hsplit, List.map_append, List.append_assoc]
    rfl

theorem InRound.flush (h : InRound [] calls) : Rounds (calls ++ [.flush]) := by
  obtain ⟨before, pieces, hb, hp, hchunk, rfl⟩ := h
  rw [List.append_nil] at hchunk
  have hne : pieces ≠ [] := by
    rintro rfl
    exact hchunk rfl
  rw [List.append_nil, List.append_assoc]
  exact hb.snoc hne hp

theorem InRound.underway (h : InRound rest calls) : Underway rest calls := by
  obtain ⟨before, pieces, hb, hp, -, rfl⟩ := h
  exact hb.underway.chunk hp

theorem InRound.length_le (h : InRound rest calls) :
    calls.length ≤ 3 * (delivered calls).length := by
  obtain ⟨before, pieces, hb, hp, hchunk, rfl⟩ := h
  have hpos := List.length_pos_of_ne_nil hchunk
  have hle := length_pieces hp
  have hbefore := hb.length_le
  rw [← List.singleton_append, delivered_append, delivered_append, delivered_writes]
  simp only [delivered, IoCall.delivered, List.length_append, List.length_map, List.length_cons,
    List.length_nil, List.flatMap_cons, List.flatMap_nil, List.append_nil] at hbefore hpos ⊢
  omega

/-! ## Steps -/

def awaits (s : CopyLoop) : Option IoKind :=
  match s.point with
  | .reading => some .read
  | .writing _ => some .write
  | .flushing => some .flush
  | .closing => some .shutdown
  | .returned _ => none

variable {s t : CopyLoop} {answer : IoAnswer}

inductive Goes (s : CopyLoop) : CopyLoop → Prop
  | fail {kind : IoKind} (e : ErrorKind) (hs : s.awaits = some kind) : Goes s (s.fail kind e)
  | ended {buf : Buffer UInt8 bufSize} (hs : s.point = .reading) :
      Goes s { s with buf, point := .closing, calls := s.calls ++ [.read []] }
  | read {bytes : List UInt8} (hs : s.point = .reading) (hne : bytes ≠ [])
      (h : bytes.length ≤ bufSize) :
      Goes s ⟨s.buf.fill bytes h, .writing (.upTo bytes.length h), s.calls ++ [.read bytes]⟩
  | zero {chunk : Slice bufSize} (hs : s.point = .writing chunk) :
      Goes s (s.after (.write []) (.returned (.error .writeZero)))
  | write {chunk : Slice bufSize} {n : ℕ} (hs : s.point = .writing chunk) (hn : 0 < n)
      (h : n ≤ chunk.length) (hlt : n < chunk.length) :
      Goes s (s.after (.write ((chunk.read s.buf).take n)) (.writing (chunk.since n h)))
  | drain {chunk : Slice bufSize} (hs : s.point = .writing chunk) (hne : chunk.read s.buf ≠ []) :
      Goes s (s.after (.write (chunk.read s.buf)) .flushing)
  | flush (hs : s.point = .flushing) : Goes s (s.after .flush .reading)
  | close (hs : s.point = .closing) : Goes s (s.after .shutdown (.returned (.ok ())))

theorem goes_of_wrote {chunk : Slice bufSize} {n : ℕ} (hs : s.point = .writing chunk)
    (h : s.copyThenShutdown (.wrote n) = some t) : Goes s t := by
  simp only [copyThenShutdown, hs] at h
  split_ifs at h with hn hzero hempty <;> cases h
  · rw [hzero, List.take_zero]
    exact .zero hs
  · have hall : chunk.length = n := by
      simp only [Slice.length, Slice.since] at hn hempty ⊢
      omega
    rw [← hall, ← Slice.length_read chunk s.buf, List.take_length]
    refine .drain hs ?_
    rw [← List.length_pos_iff, Slice.length_read]
    omega
  · refine .write hs (Nat.pos_of_ne_zero hzero) hn ?_
    simp only [Slice.length, Slice.since] at hn hempty ⊢
    omega

theorem goes_of_copyThenShutdown (h : s.copyThenShutdown answer = some t) : Goes s t := by
  unfold copyThenShutdown at h
  split at h
  · next e hs =>
    cases h
    exact .fail e (by rw [awaits, hs])
  · next bytes hs =>
    split_ifs at h with hle hnil <;> cases h
    · obtain rfl := List.length_eq_zero_iff.mp hnil
      exact .ended hs
    · exact .read hs (fun hb => hnil (by simp [hb])) hle
  · next chunk e hs =>
    cases h
    exact .fail e (by rw [awaits, hs])
  · next chunk n hs =>
    exact goes_of_wrote (n := n) hs (by simpa only [copyThenShutdown, hs] using h)
  · next e hs =>
    cases h
    exact .fail e (by rw [awaits, hs])
  · next hs =>
    cases h
    exact .flush hs
  · next e hs =>
    cases h
    exact .fail e (by rw [awaits, hs])
  · next hs =>
    cases h
    exact .close hs
  · cases h

def Sound (s : CopyLoop) : Prop :=
  match s.point with
  | .reading => Rounds s.calls
  | .writing chunk => InRound (chunk.read s.buf) s.calls
  | .flushing => InRound [] s.calls
  | .closing => ∃ before, Rounds before ∧ s.calls = before ++ [.read []]
  | .returned (.ok ()) => ∃ before, Rounds before ∧ s.calls = before ++ [.read [], .shutdown]
  | .returned (.error e) => ∃ before call rest, s.calls = before ++ [call] ∧
      call.error? = some e ∧ Underway rest before ∧
      before.length ≤ 3 * (delivered before).length + 1 ∧ ∀ e', call = .failed .shutdown e' →
        ∃ rounds, Rounds rounds ∧ before = rounds ++ [.read []]

theorem sound_start : start.Sound := rounds_nil

/-- As long as a loop has not returned, none of its calls has failed. -/
theorem Sound.underway {kind : IoKind} (h : s.Sound) (hs : s.awaits = some kind) :
    ∃ rest, Underway rest s.calls ∧ s.calls.length ≤ 3 * (delivered s.calls).length + 1 := by
  unfold Sound at h
  unfold awaits at hs
  split at h
  · exact ⟨[], h.underway, Nat.le_succ_of_le h.length_le⟩
  · exact ⟨_, h.underway, Nat.le_succ_of_le h.length_le⟩
  · exact ⟨_, h.underway, Nat.le_succ_of_le h.length_le⟩
  · obtain ⟨before, hb, heq⟩ := h
    have hle := hb.length_le
    refine ⟨[], heq ▸ hb.underway.snoc rfl rfl rfl (by simp), ?_⟩
    rw [heq]
    simpa [delivered, IoCall.delivered] using hle
  · next hp => simp [hp] at hs
  · next hp => simp [hp] at hs

theorem Sound.fail {kind : IoKind} (h : s.Sound) (hs : s.awaits = some kind) (e : ErrorKind) :
    (s.fail kind e).Sound := by
  obtain ⟨rest, hu, hle⟩ := h.underway hs
  refine ⟨s.calls, .failed kind e, rest, rfl, rfl, hu, hle, ?_⟩
  intro e' heq
  obtain rfl : kind = .shutdown := by simpa using (IoCall.failed.inj heq).1
  -- Only a loop that has read to the end waits for its shutdown.
  unfold Sound at h
  unfold awaits at hs
  split at h <;> rename_i hp <;> simp [hp] at hs
  exact h

theorem Sound.goes (h : s.Sound) (hg : Goes s t) : t.Sound := by
  cases hg with
  | fail e hs => exact h.fail hs e
  | ended hs =>
    rw [Sound, hs] at h
    exact ⟨_, h, rfl⟩
  | read hs hne hle =>
    rw [Sound, hs] at h
    change InRound ((Slice.upTo _ hle).read (s.buf.fill _ hle)) _
    rw [Slice.read_upTo_fill]
    exact h.read hne
  | zero hs =>
    have hw : s.awaits = some .write := by rw [awaits, hs]
    obtain ⟨rest, hu, hle⟩ := h.underway hw
    exact ⟨s.calls, .write [], rest, rfl, rfl, hu, hle, by rintro e ⟨⟩⟩
  | @write chunk n hs hn hle hlt =>
    rw [Sound, hs] at h
    change InRound ((chunk.since n hle).read s.buf) _
    rw [Slice.read_since]
    refine InRound.write (by rwa [List.take_append_drop]) ?_
    rw [← List.length_pos_iff, List.length_take, Slice.length_read]
    omega
  | drain hs hne =>
    rw [Sound, hs] at h
    exact InRound.write (by rwa [List.append_nil]) hne
  | flush hs =>
    rw [Sound, hs] at h
    exact h.flush
  | close hs =>
    rw [Sound, hs] at h
    obtain ⟨before, hb, heq⟩ := h
    exact ⟨before, hb, by rw [after, heq, List.append_assoc]; rfl⟩

/-! ## What each state shows -/

theorem moves_nothing (h : call.error? = some e) : call.delivered = [] ∧ call.taken = [] := by
  cases call with
  | write bytes =>
    cases bytes with
    | nil => exact ⟨rfl, rfl⟩
    | cons b bs => cases h
  | failed kind e' => exact ⟨rfl, rfl⟩
  | read bytes => cases h
  | flush => cases h
  | shutdown => cases h

theorem Rounds.complete (h : Rounds before) (hc : calls = before ++ [.read [], .shutdown]) :
    Complete calls := by
  have hu := h.underway
  refine ⟨⟨before, h, hc⟩, ?_, ?_⟩
  · rw [hc, written_append, delivered_append, ← hu.bytes]
    simp [written, delivered, IoCall.taken, IoCall.delivered]
  · rw [hc, List.count_append, List.count_eq_zero.mpr hu.no_shutdown]
    rfl

theorem Sound.cutShort (h : s.Sound) (hs : s.point = .returned (.error e)) :
    CutShort e s.calls := by
  rw [Sound, hs] at h
  obtain ⟨before, call, rest, hc, he, hu, -, htried⟩ := h
  refine ⟨⟨before, call, hc, he, hu.fine⟩, ?_, ?_⟩
  · rw [hc, List.mem_append, List.mem_singleton]
    rintro (hmem | rfl)
    · exact hu.no_shutdown hmem
    · cases he
  · intro e' hmem
    rw [hc, List.mem_append, List.mem_singleton] at hmem
    rcases hmem with hmem | rfl
    · exact absurd (hu.fine _ hmem) (by simp [IoCall.error?])
    · obtain ⟨rounds, hr, rfl⟩ := htried e' rfl
      exact ⟨rounds, hr, by rw [hc, List.append_assoc]; rfl⟩

/-- A loop has no failed call, or has returned: without an error after its shutdown, or with that
of its last call. -/
theorem Sound.cases (h : s.Sound) :
    (∃ rest, Underway rest s.calls ∧ s.calls.length ≤ 3 * (delivered s.calls).length + 1) ∨
    (∃ before, Rounds before ∧ s.calls = before ++ [.read [], .shutdown]) ∨
    ∃ e before call rest, s.point = .returned (.error e) ∧ s.calls = before ++ [call] ∧
      call.error? = some e ∧ Underway rest before ∧
      before.length ≤ 3 * (delivered before).length + 1 := by
  cases hs : s.awaits with
  | some kind => exact .inl (h.underway hs)
  | none =>
    unfold awaits at hs
    split at hs <;> cases hs
    next result hp =>
    rw [Sound, hp] at h
    cases result with
    | ok u => exact .inr (.inl h)
    | error e =>
      obtain ⟨before, call, rest, hc, he, hu, hle, -⟩ := h
      exact .inr (.inr ⟨e, before, call, rest, hp, hc, he, hu, hle⟩)

theorem Sound.written_prefix (h : s.Sound) : written s.calls <+: delivered s.calls := by
  rcases h.cases with ⟨rest, hu, -⟩ | ⟨before, hb, hc⟩ | ⟨e, before, call, rest, -, hc, he, hu, -⟩
  · exact hu.bytes ▸ List.prefix_append _ _
  · exact ⟨[], by rw [List.append_nil, (hb.complete hc).written]⟩
  · obtain ⟨hd, ht⟩ := moves_nothing he
    rw [hc, written_append, delivered_append, ← hu.bytes]
    simp [written, delivered, hd, ht]

theorem Sound.returned_of_error (h : s.Sound) {c : IoCall} (hmem : c ∈ s.calls)
    (he : c.error? = some e) : s.point = .returned (.error e) := by
  rcases h.cases with ⟨rest, hu, -⟩ | ⟨before, hb, hc⟩ |
    ⟨e', before, call, rest, hs, hc, he', hu, -⟩
  · rw [hu.fine c hmem] at he
    cases he
  · rw [hc, List.mem_append] at hmem
    rcases hmem with hmem | hmem
    · rw [hb.underway.fine c hmem] at he
      cases he
    · rcases List.mem_pair.mp hmem with rfl | rfl <;> cases he
  · rw [hc, List.mem_append, List.mem_singleton] at hmem
    rcases hmem with hmem | rfl
    · rw [hu.fine c hmem] at he
      cases he
    · rw [hs, Option.some.inj (he'.symm.trans he)]

/-- Each chunk takes a read, a flush and at most one write for each of its bytes. -/
theorem Sound.length_le (h : s.Sound) : s.calls.length ≤ 3 * (delivered s.calls).length + 2 := by
  rcases h.cases with ⟨rest, -, hle⟩ | ⟨before, hb, hc⟩ | ⟨e, before, call, rest, -, hc, he, -, hle⟩
  · omega
  · have hle := hb.length_le
    rw [hc]
    simpa [delivered, IoCall.delivered] using hle
  · rw [hc]
    simpa [delivered, (moves_nothing he).1] using hle

/-! ## Runs -/

def Offers : CopyPoint → IoAnswer → Prop
  | .returned _, _ => False
  | _, .error _ => True
  | .reading, .read bytes => bytes.length ≤ bufSize
  | .writing chunk, .wrote n => n ≤ chunk.length
  | .flushing, .done => True
  | .closing, .done => True
  | _, _ => False

/-- The loop against a system that answers each call, for a number of calls. -/
def drive (answers : CopyLoop → IoAnswer) : ℕ → CopyLoop → CopyLoop
  | 0, s => s
  | k + 1, s =>
    match s.copyThenShutdown (answers s) with
    | some t => drive answers k t
    | none => s

theorem isSome_of_offers (h : Offers s.point answer) : (s.copyThenShutdown answer).isSome := by
  cases hs : s.point with
  | reading =>
    rw [hs] at h
    cases answer with
    | error e => simp [copyThenShutdown, hs]
    | read bytes =>
      simp only [copyThenShutdown, hs, dif_pos (show bytes.length ≤ bufSize from h)]
      split_ifs <;> rfl
    | wrote n => exact h.elim
    | done => exact h.elim
  | writing chunk =>
    rw [hs] at h
    cases answer with
    | error e => simp [copyThenShutdown, hs]
    | wrote n =>
      simp only [copyThenShutdown, hs, dif_pos (show n ≤ chunk.length from h)]
      split_ifs <;> rfl
    | read bytes => exact h.elim
    | done => exact h.elim
  | flushing =>
    rw [hs] at h
    cases answer with
    | error e => simp [copyThenShutdown, hs]
    | done => simp [copyThenShutdown, hs]
    | read bytes => exact h.elim
    | wrote n => exact h.elim
  | closing =>
    rw [hs] at h
    cases answer with
    | error e => simp [copyThenShutdown, hs]
    | done => simp [copyThenShutdown, hs]
    | read bytes => exact h.elim
    | wrote n => exact h.elim
  | returned result =>
    rw [hs] at h
    exact h.elim

theorem sound_of_exec {answers : List IoAnswer}
    (h : Transition.exec copyThenShutdown start answers = some s) : s.Sound := by
  have hreach : (Transition.ofNext (· = start) copyThenShutdown).Reaches start s :=
    Transition.reaches_of_exec h
  exact hreach.preserves (fun s a t hs hst => hs.goes (goes_of_copyThenShutdown hst)) sound_start

theorem calls_of_goes (h : Goes s t) : ∃ call, t.calls = s.calls ++ [call] := by
  cases h <;> exact ⟨_, rfl⟩

theorem calls_of_exec {answers : List IoAnswer}
    (h : Transition.exec copyThenShutdown s answers = some t) :
    ∃ future, t.calls = s.calls ++ future ∧ future.length = answers.length := by
  induction answers generalizing s with
  | nil =>
    cases h
    exact ⟨[], by simp⟩
  | cons a answers ih =>
    obtain ⟨u, hu, hrest⟩ := Option.bind_eq_some_iff.mp h
    obtain ⟨call, hcall⟩ := calls_of_goes (goes_of_copyThenShutdown hu)
    obtain ⟨future, hfuture, hlen⟩ := ih hrest
    exact ⟨call :: future, by rw [hfuture, hcall, List.append_assoc]; rfl, by simp [hlen]⟩

theorem drive_returned {answers : CopyLoop → IoAnswer} {result : Except ErrorKind Unit} {k : ℕ}
    (h : s.point = .returned result) : drive answers k s = s := by
  cases k with
  | zero => rfl
  | succ k => simp [drive, copyThenShutdown, h]

/-- A driven loop has made all the calls it was given, unless it has returned. -/
theorem exec_drive {answers : CopyLoop → IoAnswer}
    (h : ∀ s : CopyLoop, s.awaits ≠ none → Offers s.point (answers s)) (k : ℕ) (s : CopyLoop) :
    ∃ as, Transition.exec copyThenShutdown s as = some (drive answers k s) ∧
      (as.length = k ∨ (drive answers k s).awaits = none) := by
  induction k generalizing s with
  | zero => exact ⟨[], rfl, .inl rfl⟩
  | succ k ih =>
    cases hn : s.copyThenShutdown (answers s) with
    | none =>
      refine ⟨[], by simp [drive, hn, Transition.exec], .inr ?_⟩
      by_contra hs
      have hsome := isSome_of_offers (h s (by simpa [drive, hn] using hs))
      rw [hn] at hsome
      cases hsome
    | some t =>
      obtain ⟨as, has, hend⟩ := ih t
      refine ⟨answers s :: as, ?_, ?_⟩
      · simp [Transition.exec, drive, hn, has]
      · simpa [drive, hn] using hend

/-- In every state of every run what was written is a prefix of what was read. A loop that returns
without an error has read to the end, written and flushed every chunk and then shut down, once; a
write of nothing or an error is its last call and its result, with no shutdown. Against every
system that delivers finitely many bytes it returns. -/
theorem copyThenShutdown_exact :
    (∀ answers s, Transition.exec copyThenShutdown start answers = some s →
      written s.calls <+: delivered s.calls ∧
      (s.point = .returned (.ok ()) → Complete s.calls) ∧
      (∀ e, s.point = .returned (.error e) → CutShort e s.calls) ∧
      ∀ c ∈ s.calls, ∀ e, c.error? = some e → s.point = .returned (.error e)) ∧
    ∀ (answers : CopyLoop → IoAnswer) (total : ℕ),
      (∀ s : CopyLoop, s.awaits ≠ none → Offers s.point (answers s)) →
      (∀ k, (delivered (drive answers k start).calls).length ≤ total) →
      ∃ result, (drive answers (3 * total + 3) start).point = .returned result := by
  refine ⟨?_, ?_⟩
  · intro answers s h
    have hs := sound_of_exec h
    refine ⟨hs.written_prefix, ?_, fun e => hs.cutShort, fun c hc e => hs.returned_of_error hc⟩
    intro hp
    rw [Sound, hp] at hs
    obtain ⟨before, hb, hc⟩ := hs
    exact hb.complete hc
  · intro answers total hoffers hfinite
    obtain ⟨as, has, hend⟩ := exec_drive hoffers (3 * total + 3) start
    obtain ⟨calls, hcalls, hlen⟩ := calls_of_exec has
    have hle := (sound_of_exec has).length_le
    have hbytes := hfinite (3 * total + 3)
    have hreturned : (drive answers (3 * total + 3) start).awaits = none := by
      refine hend.resolve_left fun hk => ?_
      have hmade := congrArg List.length hcalls
      rw [start, List.nil_append] at hmade
      rw [start] at hle hbytes
      omega
    unfold awaits at hreturned
    split at hreturned <;> cases hreturned
    next result hp => exact ⟨result, hp⟩

/-- A system that delivers two bytes and takes one with each write. -/
def twoBytes (s : CopyLoop) : IoAnswer :=
  match s.point with
  | .reading => if s.calls = [] then .read [104, 105] else .read []
  | .writing chunk => .wrote (min 1 chunk.length)
  | _ => .done

theorem copyThenShutdown_exact_twoBytes :
    (drive twoBytes 6 start).calls =
      [.read [104, 105], .write [104], .write [105], .flush, .read [], .shutdown] ∧
    Complete (drive twoBytes 6 start).calls ∧
    ∃ result, (drive twoBytes 9 start).point = .returned result := by
  have hoffers : ∀ s : CopyLoop, s.awaits ≠ none → Offers s.point (twoBytes s) := by
    intro s hs
    unfold twoBytes
    cases hp : s.point with
    | reading => split_ifs <;> simp [Offers, bufSize]
    | writing chunk => exact Nat.min_le_right _ _
    | flushing => trivial
    | closing => trivial
    | returned result => simp [awaits, hp] at hs
  have hfinite : ∀ k, (delivered (drive twoBytes k start).calls).length ≤ 2 := by
    intro k
    match k with
    | 0 => decide
    | 1 => decide
    | 2 => decide
    | 3 => decide
    | 4 => decide
    | 5 => decide
    | k + 6 =>
      change (delivered (drive twoBytes k (drive twoBytes 6 start)).calls).length ≤ 2
      rw [drive_returned (show (drive twoBytes 6 start).point = .returned (.ok ()) from rfl)]
      decide
  obtain ⟨hruns, hends⟩ := copyThenShutdown_exact
  obtain ⟨as, has, -⟩ := exec_drive hoffers 6 start
  obtain ⟨-, hok, -⟩ := hruns as _ has
  exact ⟨rfl, hok rfl, hends twoBytes 2 hoffers hfinite⟩

end CopyLoop

end Stouter
