import Mathlib.Data.List.Basic

/-! # Byte streams in pieces

A `Reader` holds what a connection still delivers, cut into the pieces that
single reads return, and a `Writer` what the other side has taken, with its
answers to the next calls. Filling a buffer depends only on the delivered
elements and not on the cuts; writing a buffer adds a prefix of it, and all
of it when the call succeeds; on a connection that stays broken, calls whose
results are ignored add a prefix of all they were given. A buffer that is
reused keeps old elements behind the new ones; a range of it that was just
filled has none of them.
-/

namespace Streams

variable {α : Type*}

/-- What a connection still delivers: one nonempty piece a read, until it ends or breaks. -/
inductive Reader (α : Type*)
  | eof
  | broken
  | piece (a : α) (as : List α) (rest : Reader α)
  deriving DecidableEq

namespace Reader

def bytes : Reader α → List α
  | .eof => []
  | .broken => []
  | .piece a as rest => a :: as ++ rest.bytes

def unread : List α → Reader α → Reader α
  | [], r => r
  | a :: as, r => .piece a as r

/-- One read into a buffer of length `n`: nothing at the end of the stream, an error on a broken
connection. -/
def read (n : ℕ) : Reader α → Option (List α × Reader α)
  | .eof => some ([], .eof)
  | .broken => none
  | .piece a as rest => some ((a :: as).take n, unread ((a :: as).drop n) rest)

/-- Read until a buffer of length `n` is full. -/
def readExact : ℕ → Reader α → Option (List α × Reader α)
  | 0, r => some ([], r)
  | _ + 1, .eof => none
  | _ + 1, .broken => none
  | n + 1, .piece a as rest =>
    if n ≤ as.length then
      some (a :: as.take n, unread (as.drop n) rest)
    else
      (readExact (n - as.length) rest).map fun (bs, r) => (a :: as ++ bs, r)

def ofList : List α → Reader α
  | [] => .eof
  | a :: as => .piece a [] (ofList as)

@[simp] theorem bytes_unread (as : List α) (r : Reader α) :
    (unread as r).bytes = as ++ r.bytes := by
  cases as <;> rfl

@[simp] theorem bytes_ofList (as : List α) : (ofList as).bytes = as := by
  induction as with
  | nil => rfl
  | cons a as ih => simp [ofList, bytes, ih]

theorem read_spec {n : ℕ} (hn : 0 < n) {r r' : Reader α} {bs : List α}
    (h : r.read n = some (bs, r')) : r.bytes = bs ++ r'.bytes ∧ (bs = [] → r.bytes = []) := by
  cases r with
  | eof =>
    obtain ⟨rfl, rfl⟩ : bs = [] ∧ r' = .eof := by simpa [read, eq_comm] using h
    exact ⟨rfl, fun _ => rfl⟩
  | broken => simp [read] at h
  | piece a as rest =>
    simp only [read, Option.some.injEq, Prod.mk.injEq] at h
    obtain ⟨rfl, rfl⟩ := h
    constructor
    · rw [bytes_unread, ← List.append_assoc, List.take_append_drop]
      rfl
    · intro hnil
      have hzero : n = 0 := by simpa using hnil
      omega

/-- A buffer that the stream can fill holds its next elements, however they were cut. -/
theorem readExact_of_le {n : ℕ} {r : Reader α} (h : n ≤ r.bytes.length) :
    ∃ r', r.readExact n = some (r.bytes.take n, r') ∧ r'.bytes = r.bytes.drop n := by
  induction r generalizing n with
  | eof =>
    obtain rfl : n = 0 := by simpa [bytes] using h
    exact ⟨.eof, rfl, rfl⟩
  | broken =>
    obtain rfl : n = 0 := by simpa [bytes] using h
    exact ⟨.broken, rfl, rfl⟩
  | piece a as rest ih =>
    cases n with
    | zero => exact ⟨_, rfl, rfl⟩
    | succ n =>
      by_cases hn : n ≤ as.length
      · refine ⟨unread (as.drop n) rest, ?_, ?_⟩
        · simp [readExact, hn, bytes, List.take_append_of_le_length hn]
        · simp [bytes, List.drop_append_of_le_length hn]
      · have hle : n - as.length ≤ rest.bytes.length := by
          simp only [bytes, List.cons_append, List.length_cons, List.length_append] at h
          omega
        obtain ⟨r', hr', hb⟩ := ih hle
        have hlen : as.length ≤ n := by omega
        refine ⟨r', ?_, ?_⟩
        · simp [readExact, hn, hr', bytes, List.take_append, List.take_of_length_le hlen]
        · simp [hb, bytes, List.drop_append, List.drop_of_length_le hlen]

theorem readExact_of_lt {n : ℕ} {r : Reader α} (h : r.bytes.length < n) :
    r.readExact n = none := by
  induction r generalizing n with
  | eof =>
    obtain ⟨m, rfl⟩ : ∃ m, n = m + 1 := ⟨n - 1, by omega⟩
    rfl
  | broken =>
    obtain ⟨m, rfl⟩ : ∃ m, n = m + 1 := ⟨n - 1, by omega⟩
    rfl
  | piece a as rest ih =>
    obtain ⟨m, rfl⟩ : ∃ m, n = m + 1 := ⟨n - 1, by omega⟩
    simp only [bytes, List.cons_append, List.length_cons, List.length_append] at h
    have hn : ¬ m ≤ as.length := by omega
    have hrest : rest.bytes.length < m - as.length := by omega
    simp [readExact, hn, ih hrest]

theorem readExact_append {n : ℕ} {r : Reader α} {bs cs : List α} (hr : r.bytes = bs ++ cs)
    (hn : bs.length = n) : ∃ r', r.readExact n = some (bs, r') ∧ r'.bytes = cs := by
  subst hn
  obtain ⟨r', h, hb⟩ := readExact_of_le (n := bs.length) (r := r) (by simp [hr])
  exact ⟨r', by rw [h, hr, List.take_left], by rw [hb, hr, List.drop_left]⟩

theorem readExact_one {r : Reader α} {b : α} {cs : List α} (hr : r.bytes = b :: cs) :
    ∃ r', r.readExact 1 = some ([b], r') ∧ r'.bytes = cs :=
  readExact_append (n := 1) (show r.bytes = [b] ++ cs from hr) rfl

end Reader

inductive Answer
  | took (n : ℕ)
  | failed
  deriving DecidableEq, Repr

/-- What the other side of a connection has taken, and its answers to the next calls. A
connection without further answers is broken. -/
structure Writer (α : Type*) where
  written : List α
  answers : List Answer
  deriving DecidableEq

namespace Writer

/-- One write: how much of the buffer was taken, or an error. -/
def write (buf : List α) (w : Writer α) : Option ℕ × Writer α :=
  match w.answers with
  | [] => (none, w)
  | .failed :: answers => (none, { w with answers := answers })
  | .took n :: answers => (some (min n buf.length), ⟨w.written ++ buf.take n, answers⟩)

/-- One call that moves no data: a flush or a shutdown. -/
def flush (w : Writer α) : Bool × Writer α :=
  match w.answers with
  | [] => (false, w)
  | .failed :: answers => (false, { w with answers := answers })
  | .took _ :: answers => (true, { w with answers := answers })

/-- The loop of `writeAll`. A write that takes nothing ends it with an error. -/
def writeFrom (written : List α) : List Answer → List α → Bool × Writer α
  | answers, [] => (true, ⟨written, answers⟩)
  | [], _ :: _ => (false, ⟨written, []⟩)
  | .failed :: answers, _ :: _ => (false, ⟨written, answers⟩)
  | .took 0 :: answers, _ :: _ => (false, ⟨written, answers⟩)
  | .took (n + 1) :: answers, a :: buf =>
    writeFrom (written ++ (a :: buf).take (n + 1)) answers (buf.drop n)

/-- Write until the whole buffer is taken. -/
def writeAll (buf : List α) (w : Writer α) : Bool × Writer α :=
  writeFrom w.written w.answers buf

def eager (size calls : ℕ) : Writer α := ⟨[], List.replicate calls (.took size)⟩

theorem writeFrom_spec (written : List α) (answers : List Answer) (buf : List α) :
    ∃ sent, (writeFrom written answers buf).2.written = written ++ sent ∧ sent <+: buf ∧
      ((writeFrom written answers buf).1 = true → sent = buf) := by
  fun_induction writeFrom written answers buf with
  | case1 => exact ⟨[], by simp⟩
  | case2 => exact ⟨[], by simp⟩
  | case3 => exact ⟨[], by simp⟩
  | case4 => exact ⟨[], by simp⟩
  | case5 written n answers a buf ih =>
    obtain ⟨sent, hw, hp, hok⟩ := ih
    have hsplit : a :: buf = (a :: buf).take (n + 1) ++ buf.drop n := by simp
    refine ⟨(a :: buf).take (n + 1) ++ sent, ?_, ?_, ?_⟩
    · rw [hw, List.append_assoc]
    · nth_rewrite 2 [hsplit]
      exact (List.prefix_append_right_inj _).mpr hp
    · intro h
      rw [hok h, ← hsplit]

/-- A write adds the whole buffer, or fails after a prefix of it. -/
theorem writeAll_cases (buf : List α) (w : Writer α) :
    (∃ w', w.writeAll buf = (true, w') ∧ w'.written = w.written ++ buf) ∨
      ∃ w' sent, w.writeAll buf = (false, w') ∧ w'.written = w.written ++ sent ∧ sent <+: buf := by
  obtain ⟨sent, hw, hsent, hok⟩ := writeFrom_spec w.written w.answers buf
  rcases h : w.writeAll buf with ⟨b, w'⟩
  rw [writeAll] at h
  rw [h] at hw hok
  cases b with
  | true => exact .inl ⟨w', rfl, hok rfl ▸ hw⟩
  | false => exact .inr ⟨w', sent, rfl, hw, hsent⟩

theorem writeAll_took {buf written : List α} {n : ℕ} {answers : List Answer} (hne : buf ≠ [])
    (hn : buf.length ≤ n) :
    writeAll buf ⟨written, .took n :: answers⟩ = (true, ⟨written ++ buf, answers⟩) := by
  obtain ⟨a, buf, rfl⟩ := List.exists_cons_of_ne_nil hne
  obtain ⟨n, rfl⟩ : ∃ k, n = k + 1 := ⟨n - 1, by simp at hn; omega⟩
  have hdrop : buf.drop n = [] := List.drop_of_length_le (by simpa using hn)
  rw [writeAll, writeFrom, hdrop, writeFrom, List.take_of_length_le hn]

@[simp] theorem written_flush (w : Writer α) : w.flush.2.written = w.written := by
  unfold flush
  split <;> rfl

theorem flush_cases (w : Writer α) :
    ∃ b w', w.flush = (b, w') ∧ w'.written = w.written := ⟨_, _, rfl, w.written_flush⟩

theorem write_spec (buf : List α) (w : Writer α) :
    (∃ n, (w.write buf).1 = some n ∧ n ≤ buf.length ∧
        (w.write buf).2.written = w.written ++ buf.take n) ∨
      ((w.write buf).1 = none ∧ (w.write buf).2.written = w.written) := by
  unfold write
  split
  · exact .inr ⟨rfl, rfl⟩
  · exact .inr ⟨rfl, rfl⟩
  · rename_i n answers _
    refine .inl ⟨min n buf.length, rfl, Nat.min_le_right _ _, ?_⟩
    rw [← List.take_eq_take_min]

end Writer

/-! ## Connections that stay broken -/

def Answer.takes : Answer → Bool
  | .took (_ + 1) => true
  | _ => false

def Dead (answers : List Answer) : Prop := ∀ a ∈ answers, a.takes = false

/-- After an answer that takes nothing, none does. -/
def Lasting : List Answer → Prop
  | [] => True
  | a :: answers => if a.takes then Lasting answers else Dead answers

/-- The connection has broken in the calls between the two: the last answer that it gave takes
nothing, or none is left. -/
def Writer.Broke (w w' : Writer α) : Prop :=
  w'.answers = [] ∨ ∃ used a, w.answers = used ++ a :: w'.answers ∧ a.takes = false

section Broke

variable {w w' w'' : Writer α} {buf : List α} {b : Bool}

theorem Writer.Broke.of_suffix (h : w'.Broke w'') (hs : w'.answers <:+ w.answers) :
    w.Broke w'' := by
  obtain ⟨used, hused⟩ := hs
  refine h.imp_right ?_
  rintro ⟨used', a, hused', ha⟩
  exact ⟨used ++ used', a, by rw [← hused, hused', List.append_assoc], ha⟩

theorem suffix_writeFrom (written : List α) (answers : List Answer) (buf : List α) :
    (Writer.writeFrom written answers buf).2.answers <:+ answers := by
  fun_induction Writer.writeFrom written answers buf with
  | case1 => exact List.suffix_rfl
  | case2 => exact List.suffix_rfl
  | case3 => exact List.suffix_cons _ _
  | case4 => exact List.suffix_cons _ _
  | case5 written n answers a buf ih => exact ih.trans (List.suffix_cons _ _)

theorem broke_writeFrom {written : List α} {answers : List Answer} {buf : List α}
    (h : (Writer.writeFrom written answers buf).1 = false) :
    Writer.Broke ⟨written, answers⟩ (Writer.writeFrom written answers buf).2 := by
  fun_induction Writer.writeFrom written answers buf with
  | case1 => cases h
  | case2 => exact .inl rfl
  | case3 => exact .inr ⟨[], .failed, rfl, rfl⟩
  | case4 => exact .inr ⟨[], .took 0, rfl, rfl⟩
  | case5 written n answers a buf ih => exact (ih h).of_suffix (List.suffix_cons _ _)

theorem suffix_writeAll (h : w.writeAll buf = (b, w')) : w'.answers <:+ w.answers := by
  have hw := suffix_writeFrom w.written w.answers buf
  rw [Writer.writeAll] at h
  rwa [h] at hw

theorem broke_writeAll (h : w.writeAll buf = (false, w')) : w.Broke w' := by
  rw [Writer.writeAll] at h
  have hfalse : (Writer.writeFrom w.written w.answers buf).1 = false := by rw [h]
  have hw := broke_writeFrom hfalse
  rwa [h] at hw

theorem suffix_flush (h : w.flush = (b, w')) : w'.answers <:+ w.answers := by
  unfold Writer.flush at h
  split at h <;> cases h
  · exact List.suffix_rfl
  · next answers ha => exact ha ▸ List.suffix_cons _ _
  · next n answers ha => exact ha ▸ List.suffix_cons _ _

theorem broke_flush (h : w.flush = (false, w')) : w.Broke w' := by
  unfold Writer.flush at h
  split at h <;> cases h
  · next ha => exact .inl ha
  · next answers ha => exact .inr ⟨[], .failed, ha, rfl⟩

end Broke

/-- Some of `bs` was written: all of it, or a prefix on a connection that is broken from then
on; and nothing on one that was broken before. -/
structure Wrote (w w' : Writer α) (bs : List α) : Prop where
  sent : ∃ sent, w'.written = w.written ++ sent ∧ sent <+: bs ∧ (sent = bs ∨ Dead w'.answers)
  lasting : Lasting w'.answers
  dead : Dead w.answers → w'.written = w.written ∧ Dead w'.answers

theorem Dead.lasting {answers : List Answer} (h : Dead answers) : Lasting answers := by
  cases answers with
  | nil => trivial
  | cons a answers =>
    rw [Lasting, if_neg (by simp [h a List.mem_cons_self])]
    exact fun b hb => h b (List.mem_cons_of_mem a hb)

theorem writeFrom_dead {written : List α} {answers : List Answer} (h : Dead answers)
    (buf : List α) : (Writer.writeFrom written answers buf).2.written = written ∧
      Dead (Writer.writeFrom written answers buf).2.answers := by
  have htail : ∀ a as, answers = a :: as → Dead as := by
    rintro a as rfl b hb
    exact h b (List.mem_cons_of_mem a hb)
  fun_cases Writer.writeFrom written answers buf with
  | case1 answers => exact ⟨rfl, h⟩
  | case2 => exact ⟨rfl, h⟩
  | case3 answers => exact ⟨rfl, htail _ _ rfl⟩
  | case4 answers => exact ⟨rfl, htail _ _ rfl⟩
  | case5 n answers => exact absurd (h _ List.mem_cons_self) (by simp [Answer.takes])

/-- A write that fails leaves a broken connection. -/
theorem writeFrom_lasting (written : List α) {answers : List Answer} (h : Lasting answers)
    (buf : List α) : Lasting (Writer.writeFrom written answers buf).2.answers ∧
      ((Writer.writeFrom written answers buf).1 = false →
        Dead (Writer.writeFrom written answers buf).2.answers) := by
  fun_induction Writer.writeFrom written answers buf with
  | case1 => exact ⟨h, by simp⟩
  | case2 => exact ⟨h, fun _ => by simp [Dead]⟩
  | case3 written answers => exact ⟨Dead.lasting h, fun _ => h⟩
  | case4 written answers => exact ⟨Dead.lasting h, fun _ => h⟩
  | case5 written n answers a buf ih => exact ih h

theorem wrote_writeAll {w : Writer α} (h : Lasting w.answers) (bs : List α) :
    Wrote w (w.writeAll bs).2 bs := by
  obtain ⟨hlast, hdead⟩ := writeFrom_lasting w.written h bs
  obtain ⟨sent, hw, hp, hok⟩ := Writer.writeFrom_spec w.written w.answers bs
  refine ⟨⟨sent, hw, hp, ?_⟩, hlast, fun hd => writeFrom_dead hd bs⟩
  cases hb : (Writer.writeFrom w.written w.answers bs).1 with
  | true => exact .inl (hok hb)
  | false => exact .inr (hdead hb)

theorem wrote_flush {w : Writer α} (h : Lasting w.answers) : Wrote w w.flush.2 [] := by
  have htail : Lasting w.flush.2.answers ∧ (Dead w.answers → Dead w.flush.2.answers) := by
    unfold Writer.flush
    split
    · exact ⟨h, id⟩
    · next answers ha =>
      rw [ha] at h ⊢
      exact ⟨Dead.lasting h, fun _ => h⟩
    · next n answers ha =>
      rw [ha] at h ⊢
      refine ⟨?_, fun hd b hb => hd b (List.mem_cons_of_mem _ hb)⟩
      cases n with
      | zero => exact Dead.lasting h
      | succ n => exact h
  exact ⟨⟨[], by simp, List.prefix_rfl, .inl rfl⟩, htail.1, fun hd => ⟨by simp, htail.2 hd⟩⟩

theorem Wrote.trans {w w' w'' : Writer α} {bs cs : List α} (h : Wrote w w' bs)
    (h' : Wrote w' w'' cs) : Wrote w w'' (bs ++ cs) := by
  obtain ⟨sent, hw, hp, hall⟩ := h.sent
  obtain ⟨sent', hw', hp', hall'⟩ := h'.sent
  refine ⟨?_, h'.lasting, fun hd => ?_⟩
  · rcases hall with rfl | hdead
    · refine ⟨sent ++ sent', by rw [hw', hw, List.append_assoc],
        (List.prefix_append_right_inj sent).mpr hp', ?_⟩
      exact hall'.imp (fun he => by rw [he]) id
    · obtain ⟨hsame, hdead'⟩ := h'.dead hdead
      exact ⟨sent, by rw [hsame, hw], hp.trans (List.prefix_append _ _), .inr hdead'⟩
  · obtain ⟨hsame, hdead⟩ := h.dead hd
    obtain ⟨hsame', hdead'⟩ := h'.dead hdead
    exact ⟨by rw [hsame', hsame], hdead'⟩

/-! ## Buffers -/

structure Buffer (α : Type*) (n : ℕ) where
  cells : List α
  length_cells : cells.length = n

structure Slice (n : ℕ) where
  start : ℕ
  stop : ℕ
  start_le : start ≤ stop
  stop_le : stop ≤ n

variable {n : ℕ}

/-- Overwrite the first cells; those after them keep what they had. -/
def Buffer.fill (buf : Buffer α n) (bs : List α) (h : bs.length ≤ n) : Buffer α n where
  cells := bs ++ buf.cells.drop bs.length
  length_cells := by
    rw [List.length_append, List.length_drop, buf.length_cells]
    omega

namespace Slice

def length (s : Slice n) : ℕ := s.stop - s.start

/-- `buf[..k]` -/
def upTo (k : ℕ) (h : k ≤ n) : Slice n := ⟨0, k, Nat.zero_le k, h⟩

/-- `chunk[k..]` -/
def since (s : Slice n) (k : ℕ) (h : k ≤ s.length) : Slice n where
  start := s.start + k
  stop := s.stop
  start_le := by
    have := s.start_le
    unfold length at h
    omega
  stop_le := s.stop_le

def read (s : Slice n) (buf : Buffer α n) : List α := (buf.cells.take s.stop).drop s.start

@[simp] theorem length_read (s : Slice n) (buf : Buffer α n) : (s.read buf).length = s.length := by
  have := s.stop_le
  rw [read, List.length_drop, List.length_take, buf.length_cells, length]
  omega

/-- What was filled in is read back, and nothing of what was there before. -/
theorem read_upTo_fill (buf : Buffer α n) (bs : List α) (h : bs.length ≤ n) :
    (upTo bs.length h).read (buf.fill bs h) = bs := by
  simp [read, upTo, Buffer.fill]

theorem read_since (s : Slice n) (buf : Buffer α n) {k : ℕ} (h : k ≤ s.length) :
    (s.since k h).read buf = (s.read buf).drop k := by
  simp [read, since]

end Slice

end Streams
