import Stouter.Wire.CopyLoop

/-! # Copies with their chunks as lists

The copies of a proxied connection hold what is still to be written as a list
and know the answers to come. Every run of the loop with its buffer is a run
of such a copy, between the connections that give the answers of the run.
-/

namespace Stouter

open Streams Files

namespace CopyLoop

variable {s t : CopyLoop} {call : IoCall} {e : ErrorKind}

/-- The phase of a copy at the same await. -/
def phase (s : CopyLoop) : CopyPhase :=
  match s.point with
  | .reading => .reading
  | .writing _ => .writing
  | .flushing => .flushing
  | .closing => .closing
  | .returned (.ok ()) => .finished
  | .returned (.error _) => .failed

/-- A copy at the same await that holds the bytes of the range still to be written. -/
structure Tracks (s : CopyLoop) (c : Copy UInt8) : Prop where
  phase : c.phase = s.phase
  chunk : ∀ chunk, s.point = .writing chunk → c.chunk = chunk.read s.buf

/-- The connection that gives the answers to the reads among some calls. -/
def readerOf : List IoCall → Reader UInt8
  | [] => .eof
  | .read [] :: _ => .eof
  | .read (b :: bs) :: calls => .piece b bs (readerOf calls)
  | .failed .read _ :: _ => .broken
  | _ :: calls => readerOf calls

def answersOf : List IoCall → List Answer
  | [] => []
  | .write bytes :: calls => .took bytes.length :: answersOf calls
  | .flush :: calls => .took 0 :: answersOf calls
  | .shutdown :: calls => .took 0 :: answersOf calls
  | .read _ :: calls => answersOf calls
  | .failed .read _ :: calls => answersOf calls
  | .failed _ _ :: calls => .failed :: answersOf calls

/-- A copy that is given the answers to come. -/
structure Follows (s : CopyLoop) (future : List IoCall) (c : Copy UInt8) : Prop where
  tracks : s.Tracks c
  reader : s.phase = .reading ∨ s.phase = .writing ∨ s.phase = .flushing →
    c.reader = readerOf future
  answers : c.writer.answers = answersOf future

variable {c : Copy UInt8} {future : List IoCall}

theorem follows_returned {result : Except ErrorKind Unit} (hs : s.point = .returned result)
    (hp : c.phase = s.phase) (ha : c.writer.answers = answersOf future) :
    s.Follows future c := by
  refine ⟨⟨hp, fun chunk h => ?_⟩, fun h => ?_, ha⟩
  · rw [hs] at h
    cases h
  · cases result <;> simp [phase, hs] at h

theorem Follows.fail {kind : IoKind} (h : s.Follows (.failed kind e :: future) c)
    (hs : s.awaits = some kind) :
    ∃ c', c.copyThenShutdown = some c' ∧ (s.fail kind e).Follows future c' ∧
      c'.writer.written = c.writer.written := by
  obtain ⟨⟨hphase, -⟩, hreader, hanswers⟩ := h
  unfold awaits at hs
  split at hs <;> cases hs
  · next hp =>
    have hr := hreader (.inl (by rw [phase, hp]))
    refine ⟨{ c with phase := .failed }, ?_, follows_returned rfl rfl hanswers, rfl⟩
    simp [Copy.copyThenShutdown, hphase, phase, hp, hr, readerOf, Reader.read]
  · next chunk hp =>
    refine ⟨⟨c.reader, ⟨c.writer.written, answersOf future⟩, c.chunk, .failed⟩, ?_,
      follows_returned rfl rfl rfl, rfl⟩
    simp [Copy.copyThenShutdown, hphase, phase, hp, Writer.write, hanswers, answersOf]
  · next hp =>
    refine ⟨⟨c.reader, ⟨c.writer.written, answersOf future⟩, c.chunk, .failed⟩, ?_,
      follows_returned rfl rfl rfl, rfl⟩
    simp [Copy.copyThenShutdown, hphase, phase, hp, Writer.flush, hanswers, answersOf]
  · next hp =>
    refine ⟨⟨c.reader, ⟨c.writer.written, answersOf future⟩, c.chunk, .failed⟩, ?_,
      follows_returned rfl rfl rfl, rfl⟩
    simp [Copy.copyThenShutdown, hphase, phase, hp, Writer.flush, hanswers, answersOf]

theorem copy_write {n : ℕ} {answers : List Answer} (hp : c.phase = .writing) (hn : 0 < n)
    (hle : n ≤ c.chunk.length) (ha : c.writer.answers = .took n :: answers) :
    c.copyThenShutdown = some ⟨c.reader, ⟨c.writer.written ++ c.chunk.take n, answers⟩,
      c.chunk.drop n, if (c.chunk.drop n).isEmpty then .flushing else .writing⟩ := by
  obtain ⟨m, rfl⟩ : ∃ m, n = m + 1 := ⟨n - 1, by omega⟩
  have hwrite : c.writer.write c.chunk =
      (some (m + 1), ⟨c.writer.written ++ c.chunk.take (m + 1), answers⟩) := by
    simp [Writer.write, ha, hle]
  simp [Copy.copyThenShutdown, hp, hwrite]

/-- Each step of a loop is one of the copy that follows it. -/
theorem Follows.goes (h : s.Follows (call :: future) c) (hg : Goes s t)
    (hc : t.calls = s.calls ++ [call]) :
    ∃ c', c.copyThenShutdown = some c' ∧ t.Follows future c' ∧
      c'.writer.written = c.writer.written ++ call.taken := by
  have hcall : ∀ {x : IoCall}, s.calls ++ [x] = s.calls ++ [call] → call = x := fun heq => by
    simpa using heq.symm
  obtain ⟨⟨hphase, hchunk⟩, hreader, hanswers⟩ := id h
  cases hg with
  | fail e hs =>
    obtain rfl := hcall hc
    simpa [IoCall.taken] using h.fail hs
  | ended hs =>
    obtain rfl := hcall hc
    have hr := hreader (.inl (by rw [phase, hs]))
    refine ⟨{ c with reader := .eof, phase := .closing }, ?_,
      ⟨⟨rfl, by rintro chunk ⟨⟩⟩, by simp [phase], hanswers⟩, by simp [IoCall.taken]⟩
    simp [Copy.copyThenShutdown, hphase, phase, hs, hr, readerOf, Reader.read]
  | @read bytes hs hne hle =>
    obtain rfl := hcall hc
    obtain ⟨b, bs, rfl⟩ := List.exists_cons_of_ne_nil hne
    have hr := hreader (.inl (by rw [phase, hs]))
    refine ⟨⟨readerOf future, c.writer, b :: bs, .writing⟩, ?_,
      ⟨⟨rfl, ?_⟩, fun _ => rfl, hanswers⟩, by simp [IoCall.taken]⟩
    · have hread : c.reader.read bufSize = some (b :: bs, readerOf future) := by
        rw [hr, readerOf, Reader.read, List.take_of_length_le hle, List.drop_of_length_le hle]
        rfl
      simp [Copy.copyThenShutdown, hphase, phase, hs, hread]
    · rintro chunk ⟨⟩
      exact (Slice.read_upTo_fill s.buf _ hle).symm
  | zero hs =>
    obtain rfl := hcall hc
    refine ⟨⟨c.reader, ⟨c.writer.written, answersOf future⟩, c.chunk, .failed⟩, ?_,
      follows_returned rfl rfl rfl, by simp [IoCall.taken]⟩
    simp [Copy.copyThenShutdown, hphase, phase, hs, Writer.write, hanswers, answersOf]
  | @write chunk n hs hn hle hlt =>
    obtain rfl := hcall hc
    have hck := hchunk chunk hs
    have hlen : c.chunk.length = chunk.length := by rw [hck, Slice.length_read]
    have ha : c.writer.answers = .took n :: answersOf future := by
      rw [hanswers, answersOf, List.length_take, Slice.length_read, Nat.min_eq_left hle]
    have hmore : (c.chunk.drop n).isEmpty = false := by
      rw [List.isEmpty_eq_false_iff, ← List.length_pos_iff, List.length_drop]
      omega
    refine ⟨_, copy_write (by rw [hphase, phase, hs]) hn (by omega) ha, ⟨⟨?_, ?_⟩, ?_, rfl⟩, ?_⟩
    · simp [hmore, phase, after]
    · rintro rest ⟨⟩
      rw [Slice.read_since]
      exact congrArg _ hck
    · exact fun _ => hreader (.inr (.inl (by rw [phase, hs])))
    · simp [hck, IoCall.taken]
  | @drain chunk hs hne =>
    obtain rfl := hcall hc
    have hck := hchunk chunk hs
    have ha : c.writer.answers = .took c.chunk.length :: answersOf future := by
      rw [hanswers, answersOf, hck]
    have hpos : 0 < c.chunk.length := by rwa [hck, List.length_pos_iff]
    refine ⟨_, copy_write (by rw [hphase, phase, hs]) hpos (Nat.le_refl _) ha,
      ⟨⟨?_, ?_⟩, ?_, rfl⟩, ?_⟩
    · simp [phase, after]
    · rintro rest ⟨⟩
    · exact fun _ => hreader (.inr (.inl (by rw [phase, hs])))
    · rw [List.take_length, hck, IoCall.taken]
  | flush hs =>
    obtain rfl := hcall hc
    have hr := hreader (.inr (.inr (by rw [phase, hs])))
    refine ⟨⟨c.reader, ⟨c.writer.written, answersOf future⟩, c.chunk, .reading⟩, ?_,
      ⟨⟨rfl, by rintro chunk ⟨⟩⟩, fun _ => hr, rfl⟩, by simp [IoCall.taken]⟩
    simp [Copy.copyThenShutdown, hphase, phase, hs, Writer.flush, hanswers, answersOf]
  | close hs =>
    obtain rfl := hcall hc
    refine ⟨⟨c.reader, ⟨c.writer.written, answersOf future⟩, c.chunk, .finished⟩, ?_,
      follows_returned rfl rfl rfl, by simp [IoCall.taken]⟩
    simp [Copy.copyThenShutdown, hphase, phase, hs, Writer.flush, hanswers, answersOf]

theorem follows_run {answers : List IoAnswer}
    (h : Transition.exec copyThenShutdown s answers = some t) (hc : t.calls = s.calls ++ future)
    (hf : s.Follows future c) :
    ∃ c', Relation.ReflTransGen (fun c c' => c.copyThenShutdown = some c') c c' ∧ t.Tracks c' ∧
      c'.writer.written = c.writer.written ++ written future := by
  induction answers generalizing s future c with
  | nil =>
    cases h
    obtain rfl : future = [] := by simpa using hc.symm
    exact ⟨c, .refl, hf.tracks, by simp [written]⟩
  | cons a answers ih =>
    obtain ⟨u, hu, hrest⟩ := Option.bind_eq_some_iff.mp h
    have hg := goes_of_copyThenShutdown hu
    obtain ⟨call, hcall⟩ := calls_of_goes hg
    obtain ⟨future', hfuture, -⟩ := calls_of_exec hrest
    obtain rfl : future = call :: future' := by
      rw [hfuture, hcall, List.append_assoc] at hc
      exact (List.append_cancel_left hc).symm
    obtain ⟨c₁, hstep, hf₁, hw₁⟩ := hf.goes hg hcall
    obtain ⟨c', hreach, htracks, hw⟩ := ih hrest hfuture hf₁
    refine ⟨c', .head hstep hreach, htracks, ?_⟩
    rw [hw, hw₁, List.append_assoc]
    rfl

/-- Every run of the loop is one of a copy between the connections that answer its calls. -/
theorem exists_copy {answers : List IoAnswer}
    (h : Transition.exec copyThenShutdown start answers = some s) :
    ∃ c, Relation.ReflTransGen (fun c c' => c.copyThenShutdown = some c')
        (.start (readerOf s.calls) ⟨[], answersOf s.calls⟩) c ∧
      s.Tracks c ∧ c.writer.written = written s.calls :=
  follows_run h rfl ⟨⟨rfl, by rintro chunk ⟨⟩⟩, fun _ => rfl, rfl⟩

end CopyLoop

end Stouter
