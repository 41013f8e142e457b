import Stouter.Streams.Basic
import Stouter.Transition.Basic

/-! # Bidirectional proxying

`copy_then_shutdown` as a machine that stops at every await, and
`proxy_bidirectional`: two copies in any interleaving, ended by a failure of
either, by both finishing or by the idle timeout. A copy never loses,
repeats or reorders a byte: what it has written, what it holds and what is
still to be read are together the bytes of its source.
-/

namespace Stouter

open Streams

variable {α : Type*}

/-- Buffer size for bidirectional proxy (64 KiB). -/
def bufSize : ℕ := 65536

inductive CopyPhase
  | reading
  | writing
  | flushing
  | closing
  | finished
  | failed
  deriving DecidableEq, Repr

structure Copy (α : Type*) where
  reader : Reader α
  writer : Writer α
  chunk : List α
  phase : CopyPhase

namespace Copy

def start (reader : Reader α) (writer : Writer α) : Copy α := ⟨reader, writer, [], .reading⟩

/-- `copy_then_shutdown` up to its next await. -/
def copyThenShutdown (c : Copy α) : Option (Copy α) :=
  match c.phase with
  | .reading =>
    match c.reader.read bufSize with
    | none => some { c with phase := .failed }
    | some ([], r) => some { c with reader := r, phase := .closing }
    | some (buf, r) => some { c with reader := r, chunk := buf, phase := .writing }
  | .writing =>
    match c.writer.write c.chunk with
    | (none, w) => some { c with writer := w, phase := .failed }
    -- `WriteZero`.
    | (some 0, w) => some { c with writer := w, phase := .failed }
    | (some n, w) =>
      let chunk := c.chunk.drop n
      some { c with
        writer := w, chunk := chunk, phase := if chunk.isEmpty then .flushing else .writing }
  | .flushing =>
    match c.writer.flush with
    | (false, w) => some { c with writer := w, phase := .failed }
    | (true, w) => some { c with writer := w, phase := .reading }
  | .closing =>
    match c.writer.flush with
    | (false, w) => some { c with writer := w, phase := .failed }
    | (true, w) => some { c with writer := w, phase := .finished }
  | .finished => none
  | .failed => none

/-- What was written, what is held and what is still to come are the bytes to copy. -/
structure Carries (total : List α) (c : Copy α) : Prop where
  bytes : c.writer.written ++ (c.chunk ++ c.reader.bytes) = total
  empty : c.phase ≠ .writing → c.phase ≠ .failed → c.chunk = []
  drained : c.phase = .closing ∨ c.phase = .finished → c.reader.bytes = []

variable {total : List α} {c c' : Copy α}

theorem carries_start (r : Reader α) (w : Writer α) : Carries (w.written ++ r.bytes) (start r w) :=
  ⟨rfl, fun _ _ => rfl, by rintro (h | h) <;> cases h⟩

/-- How far a copy is from its end. -/
def work (c : Copy α) : ℕ :=
  3 * c.reader.bytes.length + 2 * c.chunk.length +
    match c.phase with
    | .reading => 2
    | .writing => 2
    | .flushing => 3
    | .closing => 1
    | .finished => 0
    | .failed => 0

inductive Moves (c : Copy α) : Copy α → Prop
  | fail {w : Writer α} (hw : w.written = c.writer.written) :
      Moves c { c with writer := w, phase := .failed }
  | ended {r : Reader α} (hp : c.phase = .reading) (hr : c.reader.read bufSize = some ([], r)) :
      Moves c { c with reader := r, phase := .closing }
  | read {buf : List α} {r : Reader α} (hp : c.phase = .reading)
      (hr : c.reader.read bufSize = some (buf, r)) (hne : buf ≠ []) :
      Moves c { c with reader := r, chunk := buf, phase := .writing }
  | write {n : ℕ} {w : Writer α} (hp : c.phase = .writing) (hn : 0 < n) (hle : n ≤ c.chunk.length)
      (hw : w.written = c.writer.written ++ c.chunk.take n) :
      Moves c { c with
        writer := w, chunk := c.chunk.drop n
        phase := if (c.chunk.drop n).isEmpty then .flushing else .writing }
  | flush {w : Writer α} (hp : c.phase = .flushing) (hw : w.written = c.writer.written) :
      Moves c { c with writer := w, phase := .reading }
  | close {w : Writer α} (hp : c.phase = .closing) (hw : w.written = c.writer.written) :
      Moves c { c with writer := w, phase := .finished }

theorem moves_of_copyThenShutdown (h : c.copyThenShutdown = some c') : Moves c c' := by
  unfold copyThenShutdown at h
  split at h
  · rename_i hp
    split at h <;> cases h
    · exact .fail rfl
    · exact .ended hp ‹_›
    · rename_i buf r hne hr
      exact .read hp hr hne
  · rename_i hp
    have hspec := c.writer.write_spec c.chunk
    split at h <;> cases h <;> rename_i hw <;> rw [hw] at hspec
    · exact .fail (by simpa using hspec)
    · exact .fail (by simpa using hspec)
    · rename_i n w hn
      obtain ⟨hle, hwritten⟩ : n ≤ c.chunk.length ∧
          w.written = c.writer.written ++ c.chunk.take n := by simpa using hspec
      exact .write hp (Nat.pos_of_ne_zero hn) hle hwritten
  · rename_i hp
    have hw := c.writer.written_flush
    split at h <;> cases h <;> rename_i hf <;> rw [hf] at hw
    · exact .fail hw
    · exact .flush hp hw
  · rename_i hp
    have hw := c.writer.written_flush
    split at h <;> cases h <;> rename_i hf <;> rw [hf] at hw
    · exact .fail hw
    · exact .close hp hw
  · cases h
  · cases h

/-- One step keeps every byte. -/
theorem Carries.move (hc : Carries total c) (h : Moves c c') : Carries total c' := by
  have hbytes := hc.bytes
  cases h with
  | fail hw => exact ⟨by simpa [hw] using hbytes, by simp, by simp⟩
  | @ended r hp hr =>
    obtain ⟨hsplit, hnil⟩ := Reader.read_spec (by decide) hr
    have hr' : r.bytes = [] := by rw [← hnil rfl, hsplit, List.nil_append]
    have hchunk := hc.empty (by simp [hp]) (by simp [hp])
    exact ⟨by simpa [hchunk, hnil rfl, hr'] using hbytes, fun _ _ => hchunk, fun _ => hr'⟩
  | read hp hr hne =>
    obtain ⟨hsplit, _⟩ := Reader.read_spec (by decide) hr
    have hchunk := hc.empty (by simp [hp]) (by simp [hp])
    rw [hchunk, hsplit, List.nil_append] at hbytes
    exact ⟨hbytes, by simp, by simp⟩
  | write hp hn hle hw =>
    refine ⟨?_, ?_, ?_⟩
    · rw [hw, List.append_assoc, ← List.append_assoc (List.take _ _), List.take_append_drop]
      exact hbytes
    · intro hwriting _
      by_contra hne
      exact hwriting (if_neg (by simpa using hne))
    · intro hphase
      split_ifs at hphase <;> simp at hphase
  | flush hp hw =>
    have hchunk := hc.empty (by simp [hp]) (by simp [hp])
    exact ⟨by simpa [hw] using hbytes, fun _ _ => hchunk, by simp⟩
  | close hp hw =>
    have hchunk := hc.empty (by simp [hp]) (by simp [hp])
    exact ⟨by simpa [hw] using hbytes, fun _ _ => hchunk, fun _ => hc.drained (.inl hp)⟩

theorem Moves.written (h : Moves c c') : c.writer.written <+: c'.writer.written := by
  cases h with
  | fail hw => exact hw ▸ List.prefix_rfl
  | ended hp hr => exact List.prefix_rfl
  | read hp hr hne => exact List.prefix_rfl
  | write hp hn hle hw => exact hw ▸ List.prefix_append _ _
  | flush hp hw => exact hw ▸ List.prefix_rfl
  | close hp hw => exact hw ▸ List.prefix_rfl

end Copy

/-! ## Both directions -/

/-- The two directions of a proxied connection, and whether the proxy has returned. -/
structure Proxy (α : Type*) where
  up : Copy α
  down : Copy α
  ended : Bool

inductive ProxyAct
  | up
  | down
  | idle
  deriving DecidableEq, Repr

namespace Proxy

/-- `try_join!`: over once either direction has failed or both have finished. -/
def joined (up down : Copy α) : Bool :=
  up.phase == .failed || down.phase == .failed ||
    up.phase == .finished && down.phase == .finished

/-- `proxy_bidirectional` between `a` and `b`, each given by its two halves. -/
def start (ar : Reader α) (aw : Writer α) (br : Reader α) (bw : Writer α) : Proxy α :=
  ⟨.start ar bw, .start br aw, false⟩

def next (p : Proxy α) (act : ProxyAct) : Option (Proxy α) :=
  if p.ended then none
  else
    match act with
    | .up => p.up.copyThenShutdown.map fun c => ⟨c, p.down, joined c p.down⟩
    | .down => p.down.copyThenShutdown.map fun c => ⟨p.up, c, joined p.up c⟩
    -- The idle timeout of `select!` drops both copies where they are.
    | .idle => some { p with ended := true }

def runs (p : Proxy α) : Transition (Proxy α) ProxyAct := .ofNext (· = p) next

variable {total : List α} {p p' : Proxy α} {act : ProxyAct}

theorem next_down (h : p.next act = some p') :
    p'.down = p.down ∨ p.down.copyThenShutdown = some p'.down := by
  unfold next at h
  split_ifs at h
  cases act with
  | up =>
    obtain ⟨c, _, rfl⟩ := Option.map_eq_some_iff.mp h
    exact .inl rfl
  | down =>
    obtain ⟨c, hc, rfl⟩ := Option.map_eq_some_iff.mp h
    exact .inr hc
  | idle =>
    cases h
    exact .inl rfl

/-- In every state of every run, each byte from `b` is written to `a`, held, or still to come. -/
theorem carries_down {p₀ : Proxy α} (h : (runs p₀).Reachable p) (h₀ : p₀.down.Carries total) :
    p.down.Carries total := by
  apply h.invariant (I := fun p => p.down.Carries total)
  · rintro p rfl
    exact h₀
  · intro p act p' hp hstep
    rcases next_down hstep with heq | hmove
    · rw [heq]
      exact hp
    · exact hp.move (Copy.moves_of_copyThenShutdown hmove)

theorem written_down {p₀ : Proxy α} (h : (runs p₀).Reachable p) :
    p₀.down.writer.written <+: p.down.writer.written := by
  refine h.invariant (I := fun p => p₀.down.writer.written <+: p.down.writer.written) ?_ ?_
  · rintro p rfl
    exact List.prefix_rfl
  · intro p act p' hp hstep
    rcases next_down hstep with heq | hmove
    · rw [heq]
      exact hp
    · exact hp.trans (Copy.moves_of_copyThenShutdown hmove).written

end Proxy

end Stouter
