import Stouter.Transition.Basic
import Mathlib.Algebra.BigOperators.Group.List.Basic
import Mathlib.Algebra.Ring.Nat
import Mathlib.Data.List.Flatten

/-! # The span exporter

`Tracer` hands spans to a bounded queue and `run_exporter` sends them to the
collector in batches. The exporter takes nothing from the queue while a
request is under way. A flush is named by the number of spans that were
accepted before it. No accepted span is lost, sent twice or overtaken on its
way to a request, whatever the collector answers.
-/

namespace Stouter

def queueCapacity : ℕ := 4096

def maxBatch : ℕ := 512

/-- What waits in the queue: a span, or the acknowledgement of a flush. -/
inductive Command (α : Type*)
  | span (span : α)
  | flush (ack : ℕ)
  deriving DecidableEq, Repr

/-- How a request to the collector ends. -/
inductive ExportResult
  | ok (rejected : UInt64)
  | err
  deriving DecidableEq, Repr

/-- What the exporter does after a request: go on, acknowledge a flush or return. -/
inductive AfterExport
  | next
  | ack (ack : ℕ)
  | stop
  deriving DecidableEq, Repr

def ExportResult.isOk : ExportResult → Bool
  | .ok _ => true
  | .err => false

/-- The queue, the exporter and what they have counted. `sending` is the request under way and
`sent` are the finished ones; `accepted` are the spans that `record` has put in the queue. -/
structure Exporter (α : Type*) where
  connected : Bool
  queue : List (Command α)
  batch : List α
  sending : Option (List α × AfterExport)
  stopped : Bool
  failing : Bool
  accepted : List α
  sent : List (List α × ExportResult)
  acked : List ℕ
  queueFull : ℕ
  exported : ℕ
  rejected : ℕ
  exportFailed : ℕ
  warnings : ℕ
  recoveries : ℕ
  deriving DecidableEq, Repr

inductive ExporterAct (α : Type*)
  | record (span : α)
  | flush
  | close
  | recv
  | tick
  | answer (result : ExportResult)
  deriving DecidableEq, Repr

namespace Exporter

variable {α : Type*}

def start : Exporter α :=
  ⟨true, [], [], none, false, false, [], [], [], 0, 0, 0, 0, 0, 0⟩

/-- Go on after a request. -/
def resume (s : Exporter α) : AfterExport → Exporter α
  | .next => s
  | .ack n => { s with acked := s.acked ++ [n] }
  | .stop => { s with stopped := true }

/-- `export` up to its request; an empty batch sends none. -/
def exportBatch (s : Exporter α) (after : AfterExport) : Exporter α :=
  if s.batch.isEmpty then s.resume after
  else { s with batch := [], sending := some (s.batch, after) }

/-- `export` after its request. -/
def settle (s : Exporter α) (spans : List α) : ExportResult → Exporter α
  | .ok rejected => { s with
      sent := s.sent ++ [(spans, .ok rejected)]
      recoveries := if s.failing then s.recoveries + 1 else s.recoveries
      failing := false
      exported := s.exported + (spans.length - rejected.toNat)
      rejected := s.rejected + rejected.toNat }
  | .err => { s with
      sent := s.sent ++ [(spans, .err)]
      exportFailed := s.exportFailed + spans.length
      warnings := if s.failing then s.warnings else s.warnings + 1
      failing := true }

def next (s : Exporter α) : ExporterAct α → Option (Exporter α)
  | .record span =>
    if s.connected then
      -- `try_send`
      if s.queue.length < queueCapacity then some { s with
        queue := s.queue ++ [.span span]
        accepted := s.accepted ++ [span] }
      else some { s with queueFull := s.queueFull + 1 }
    else none
  | .flush =>
    -- `send` waits for a place in the queue.
    if s.connected ∧ s.queue.length < queueCapacity then
      some { s with queue := s.queue ++ [.flush s.accepted.length] }
    else none
  | .close => some { s with connected := false }
  | .recv =>
    if s.stopped ∨ s.sending.isSome then none
    else
      match s.queue with
      | .span span :: queue =>
        let s := { s with queue, batch := s.batch ++ [span] }
        some (if s.batch.length ≥ maxBatch then s.exportBatch .next else s)
      | .flush n :: queue => some ({ s with queue }.exportBatch (.ack n))
      | [] => if s.connected then none else some (s.exportBatch .stop)
  | .tick => if s.stopped ∨ s.sending.isSome then none else some (s.exportBatch .next)
  | .answer result =>
    s.sending.map fun (spans, after) =>
      ({ s with sending := none }.settle spans result).resume after

def system : Transition (Exporter α) (ExporterAct α) := Transition.ofNext (· = start) next

/-! ## Where a span is -/

def spansOf (queue : List (Command α)) : List α :=
  queue.filterMap fun
    | .span span => some span
    | .flush _ => none

def inFlight (s : Exporter α) : List α := (s.sending.map Prod.fst).getD []

/-- The spans of the finished requests. -/
def delivered (s : Exporter α) : List α := (s.sent.map Prod.fst).flatten

/-- The spans of the requests that a collector has confirmed. -/
def confirmed (s : Exporter α) : List α := ((s.sent.filter (·.2.isOk)).map Prod.fst).flatten

/-- A finished request had a batch that was not empty and not too large. -/
def Batch (spans : List α) : Prop := 0 < spans.length ∧ spans.length ≤ maxBatch

/-- The flushes in a queue are named by the spans before them, of which `n` are not in the queue. -/
def Numbered : ℕ → List (Command α) → Prop
  | _, [] => True
  | n, .span _ :: queue => Numbered (n + 1) queue
  | n, .flush m :: queue => m = n ∧ Numbered n queue

/-- What holds of the exporter while its batch has at most `cap` spans. -/
structure Pipes (cap : ℕ) (s : Exporter α) : Prop where
  order : s.accepted = s.delivered ++ (s.inFlight ++ (s.batch ++ spansOf s.queue))
  queue : s.queue.length ≤ queueCapacity
  batch : s.batch.length ≤ cap
  sizes : ∀ r ∈ s.sent, Batch r.1
  sending : ∀ spans after, s.sending = some (spans, after) → Batch spans ∧ s.batch = []
  queued : Numbered (s.delivered.length + s.inFlight.length + s.batch.length) s.queue
  acking : ∀ spans n, s.sending = some (spans, .ack n) → n = s.delivered.length + spans.length
  acked : ∀ n ∈ s.acked, n ≤ s.delivered.length
  stopping : (∃ spans, s.sending = some (spans, .stop)) ∨ s.stopped = true →
    s.connected = false ∧ s.queue = [] ∧ s.batch = []
  returned : s.stopped = true → s.sending = none

def Sound (s : Exporter α) : Prop := s.Pipes (maxBatch - 1)

theorem Sound.widen {s : Exporter α} (hs : s.Sound) : s.Pipes maxBatch :=
  { hs with batch := Nat.le_trans hs.batch (Nat.sub_le _ _) }

variable {s t : Exporter α} {a : ExporterAct α} {queue : List (Command α)} {n cap : ℕ}

@[simp] theorem spansOf_append (q q' : List (Command α)) :
    spansOf (q ++ q') = spansOf q ++ spansOf q' := List.filterMap_append ..

theorem numbered_concat (c : Command α) : Numbered n (queue ++ [c]) ↔
    Numbered n queue ∧ ∀ m, c = .flush m → m = n + (spansOf queue).length := by
  induction queue generalizing n with
  | nil => cases c <;> simp [Numbered, spansOf]
  | cons d queue ih =>
    cases d with
    | span x =>
      have hlen : (spansOf (.span x :: queue)).length = (spansOf queue).length + 1 := rfl
      simp only [List.cons_append, Numbered, ih, hlen]
      refine and_congr_right fun _ => forall₂_congr fun m _ => ?_
      omega
    | flush k =>
      simp only [List.cons_append, Numbered, ih, and_assoc]
      rfl

/-! ## One step -/

/-- Going on after a request acknowledges only what has been delivered, and returns only when there
is nothing left. -/
theorem Pipes.resume (hs : s.Pipes cap) (hidle : s.sending = none) {after : AfterExport}
    (hack : ∀ n, after = .ack n → n ≤ s.delivered.length)
    (hstop : after = .stop → s.connected = false ∧ s.queue = [] ∧ s.batch = []) :
    Pipes cap (s.resume after) := by
  cases after with
  | next => exact hs
  | ack n =>
    refine { hs with acked := fun m hm => ?_ }
    rcases List.mem_append.mp hm with hm | hm
    · exact hs.acked m hm
    · rw [List.mem_singleton.mp hm]
      exact hack n rfl
  | stop => exact { hs with stopping := fun _ => hstop rfl, returned := fun _ => hidle }

theorem Pipes.exportBatch (hs : s.Pipes maxBatch) (hidle : s.sending = none)
    (hrun : s.stopped = false) {after : AfterExport}
    (hack : ∀ n, after = .ack n → n = s.delivered.length + s.batch.length)
    (hstop : after = .stop → s.connected = false ∧ s.queue = []) :
    Sound (s.exportBatch after) := by
  have hflight : s.inFlight = [] := by rw [inFlight, hidle]; rfl
  unfold Exporter.exportBatch
  by_cases hempty : s.batch = []
  · rw [if_pos (List.isEmpty_iff.mpr hempty)]
    have hsmall : s.batch.length ≤ maxBatch - 1 := by simp [hempty]
    refine Pipes.resume { hs with batch := hsmall } hidle (fun n hn => ?_) fun h => ?_
    · rw [hack n hn, hempty, List.length_nil]
      exact Nat.le_refl _
    · exact ⟨(hstop h).1, (hstop h).2, hempty⟩
  · rw [if_neg (by simpa using hempty)]
    have hbatch : Batch s.batch := ⟨List.length_pos_of_ne_nil hempty, hs.batch⟩
    have hnot : s.stopped ≠ true := by simp [hrun]
    refine ⟨?_, hs.queue, by simp, hs.sizes, ?_, ?_, ?_, hs.acked, ?_, fun h => absurd h hnot⟩
    · have horder := hs.order
      rw [hflight] at horder
      exact horder
    · rintro spans after' ⟨⟩
      exact ⟨hbatch, rfl⟩
    · have hqueued := hs.queued
      rw [hflight] at hqueued
      exact hqueued
    · rintro spans n ⟨⟩
      exact hack n rfl
    · rintro (⟨spans, ⟨⟩⟩ | hstopped)
      · exact ⟨(hstop rfl).1, (hstop rfl).2, rfl⟩
      · exact absurd hstopped hnot

theorem Pipes.deliver {spans : List α} {after : AfterExport} {result : ExportResult}
    (hs : s.Pipes cap) (hsending : s.sending = some (spans, after)) (hqueue : t.queue = s.queue)
    (hbatch : t.batch = s.batch) (hidle : t.sending = none) (hstopped : t.stopped = s.stopped)
    (hconnected : t.connected = s.connected) (haccepted : t.accepted = s.accepted)
    (hacked : t.acked = s.acked) (hsent : t.sent = s.sent ++ [(spans, result)]) :
    t.Pipes cap ∧ t.delivered = s.delivered ++ spans := by
  obtain ⟨hsize, hnil⟩ := hs.sending spans after hsending
  have hflight : s.inFlight = spans := by rw [inFlight, hsending]; rfl
  have hdone : t.inFlight = [] := by rw [inFlight, hidle]; rfl
  have hdelivered : t.delivered = s.delivered ++ spans := by simp [delivered, hsent]
  refine ⟨⟨?_, by rw [hqueue]; exact hs.queue, by rw [hbatch]; exact hs.batch, ?_, ?_, ?_, ?_, ?_,
    ?_, fun _ => hidle⟩, hdelivered⟩
  · rw [haccepted, hs.order, hdelivered, hflight, hdone, hbatch, hqueue, List.append_assoc,
      List.nil_append]
  · intro r hr
    rw [hsent] at hr
    rcases List.mem_append.mp hr with hr | hr
    · exact hs.sizes r hr
    · rw [List.mem_singleton.mp hr]
      exact hsize
  · simp [hidle]
  · have hqueued := hs.queued
    rw [hflight] at hqueued
    rw [hdelivered, hdone, hbatch, hqueue, List.length_append, List.length_nil, Nat.add_zero]
    exact hqueued
  · simp [hidle]
  · intro n hn
    rw [hacked] at hn
    rw [hdelivered, List.length_append]
    exact Nat.le_add_right_of_le (hs.acked n hn)
  · rw [hidle, hstopped, hconnected, hqueue, hbatch]
    rintro (⟨spans', ⟨⟩⟩ | hstop)
    exact hs.stopping (.inr hstop)

theorem Pipes.settle {spans : List α} {after : AfterExport} (hs : s.Pipes cap)
    (hsending : s.sending = some (spans, after)) (result : ExportResult) :
    Pipes cap (Exporter.settle { s with sending := none } spans result) ∧
      (Exporter.settle { s with sending := none } spans result).delivered =
        s.delivered ++ spans := by
  cases result <;> exact hs.deliver hsending rfl rfl rfl rfl rfl rfl rfl rfl

theorem Pipes.enqueue {c : Command α} {more : List α} (hs : s.Pipes cap)
    (hconnected : s.connected = true) (hroom : s.queue.length < queueCapacity)
    (hmore : spansOf [c] = more) (hnumber : ∀ n, c = .flush n → n = s.accepted.length) :
    Pipes cap { s with queue := s.queue ++ [c], accepted := s.accepted ++ more } := by
  refine { hs with order := ?_, queue := ?_, queued := ?_, stopping := ?_ }
  · simp only [hs.order, ← hmore, spansOf_append, List.append_assoc]
    rfl
  · simp only [List.length_append, List.length_singleton]
    exact hroom
  · have htotal : s.accepted.length = s.delivered.length + s.inFlight.length + s.batch.length +
        (spansOf s.queue).length := by
      rw [hs.order]
      simp only [List.length_append]
      omega
    exact (numbered_concat c).mpr ⟨hs.queued, fun n hn => (hnumber n hn).trans htotal⟩
  · intro hstop
    rw [(hs.stopping hstop).1] at hconnected
    cases hconnected

theorem Pipes.take {span : α} (hs : s.Sound) (hidle : s.sending = none) (hrun : s.stopped = false)
    (hq : s.queue = .span span :: queue) :
    Pipes maxBatch { s with queue, batch := s.batch ++ [span] } := by
  have hflight : s.inFlight = [] := by rw [inFlight, hidle]; rfl
  have hqueue := hs.queue
  have hbatch := hs.batch
  have horder := hs.order
  have hqueued := hs.queued
  rw [hq] at hqueue horder hqueued
  refine { hs with
    order := ?_, queue := ?_, batch := ?_, sending := ?_, queued := ?_, stopping := ?_ }
  · rw [horder]
    simp only [List.append_assoc]
    rfl
  · exact Nat.le_of_succ_le hqueue
  · simp only [List.length_append, List.length_singleton]
    simp only [maxBatch] at hbatch ⊢
    omega
  · simp [hidle]
  · simp only [List.length_append, List.length_singleton]
    exact hqueued
  · simp [hidle, hrun]

theorem Sound.next (hs : s.Sound) (h : next s a = some t) : t.Sound := by
  cases a with
  | record span =>
    obtain ⟨hconnected, h⟩ := Option.ite_none_right_eq_some.mp h
    split_ifs at h with hroom <;> cases h
    · exact Pipes.enqueue hs hconnected hroom rfl (by simp)
    · exact { hs with }
  | flush =>
    obtain ⟨⟨hconnected, hroom⟩, h⟩ := Option.ite_none_right_eq_some.mp h
    cases h
    have hnone : spansOf [(.flush s.accepted.length : Command α)] = [] := rfl
    have henqueue := Pipes.enqueue hs hconnected hroom hnone (by simp)
    rw [List.append_nil] at henqueue
    exact henqueue
  | close =>
    cases h
    exact { hs with stopping := fun hstop => ⟨rfl, (hs.stopping hstop).2⟩ }
  | recv =>
    obtain ⟨hrun, h⟩ := Option.ite_none_left_eq_some.mp h
    have hidle : s.sending = none := by simpa using fun h => hrun (.inr h)
    have hlive : s.stopped = false := by simpa using fun h => hrun (.inl h)
    split at h
    · next span queue hq =>
      cases h
      have htaken := Pipes.take hs hidle hlive hq
      dsimp only
      split_ifs with hfull
      · exact htaken.exportBatch hidle hlive (by simp) (by simp)
      · exact { htaken with batch := Nat.le_sub_one_of_lt (Nat.lt_of_not_le hfull) }
    · next n queue hq =>
      cases h
      have hqueue := hs.queue
      have hqueued := hs.queued
      have horder := hs.order
      rw [hq] at hqueue hqueued horder
      have hrest : Pipes maxBatch { s with queue } :=
        { hs.widen with
          order := horder
          queue := Nat.le_of_succ_le hqueue
          queued := hqueued.2
          stopping := by simp [hidle, hlive] }
      refine hrest.exportBatch hidle hlive (fun m hm => ?_) (by simp)
      cases hm
      have hflight : s.inFlight = [] := by rw [inFlight, hidle]; rfl
      have hnumber := hqueued.1
      rw [hflight] at hnumber
      exact hnumber
    · next hq =>
      obtain ⟨hclosed, h⟩ := Option.ite_none_left_eq_some.mp h
      cases h
      exact hs.widen.exportBatch hidle hlive (by simp) fun _ => ⟨by simpa using hclosed, hq⟩
  | tick =>
    obtain ⟨hrun, h⟩ := Option.ite_none_left_eq_some.mp h
    cases h
    have hidle : s.sending = none := by simpa using fun h => hrun (.inr h)
    have hlive : s.stopped = false := by simpa using fun h => hrun (.inl h)
    exact Pipes.exportBatch hs.widen hidle hlive (by simp) (by simp)
  | answer result =>
    obtain ⟨⟨spans, after⟩, hsending, rfl⟩ := Option.map_eq_some_iff.mp h
    obtain ⟨hpipes, hdelivered⟩ := Pipes.settle hs hsending result
    have hidle : (settle { s with sending := none } spans result).sending = none := by
      cases result <;> rfl
    refine hpipes.resume hidle (fun n hn => ?_) fun hstop => ?_
    · subst hn
      apply Nat.le_of_eq
      rw [hdelivered, List.length_append, hs.acking spans n hsending]
    · subst hstop
      have hrest := hs.stopping (.inl ⟨spans, hsending⟩)
      cases result <;> exact hrest

theorem sound_of_reachable (h : system.Reachable s) : s.Sound := by
  refine h.invariant (I := Sound) ?_ fun _ _ _ hs hstep => hs.next hstep
  rintro s rfl
  refine ⟨rfl, Nat.zero_le _, Nat.zero_le _, ?_, ?_, trivial, ?_, ?_, ?_, ?_⟩ <;> simp [start]

/-! ## What is counted -/

/-- What collectors have claimed to reject beyond the spans of the request. -/
def excess (s : Exporter α) : ℕ :=
  (s.sent.map fun
    | (spans, .ok rejected) => rejected.toNat - spans.length
    | (_, .err) => 0).sum

structure Counted (s : Exporter α) : Prop where
  spans : s.exported + s.rejected + s.exportFailed = s.delivered.length + s.excess
  warnings : s.warnings = s.recoveries + s.failing.toNat
  failed : s.confirmed.length + s.exportFailed = s.delivered.length

theorem counted_resume {after : AfterExport} : (s.resume after).Counted ↔ s.Counted := by
  cases after <;>
    exact ⟨fun h => ⟨h.spans, h.warnings, h.failed⟩, fun h => ⟨h.spans, h.warnings, h.failed⟩⟩

theorem counted_exportBatch {after : AfterExport} :
    (s.exportBatch after).Counted ↔ s.Counted := by
  unfold exportBatch
  split_ifs
  · exact counted_resume
  · exact ⟨fun h => ⟨h.spans, h.warnings, h.failed⟩, fun h => ⟨h.spans, h.warnings, h.failed⟩⟩

theorem confirmed_settle (spans : List α) (result : ExportResult) :
    (s.settle spans result).confirmed = s.confirmed ++ if result.isOk then spans else [] := by
  cases result <;> simp [Exporter.settle, confirmed, ExportResult.isOk]

theorem delivered_settle (spans : List α) (result : ExportResult) :
    (s.settle spans result).delivered = s.delivered ++ spans := by
  cases result <;> simp [Exporter.settle, delivered]

theorem excess_settle (spans : List α) (result : ExportResult) :
    (s.settle spans result).excess = s.excess + match result with
      | .ok rejected => rejected.toNat - spans.length
      | .err => 0 := by
  cases result <;> simp [Exporter.settle, excess]

theorem Counted.settle (hs : s.Counted) (spans : List α) (result : ExportResult) :
    (s.settle spans result).Counted := by
  have hspans := hs.spans
  have hwarnings := hs.warnings
  have hfailed := hs.failed
  constructor
  · rw [delivered_settle, excess_settle, List.length_append]
    cases result <;> simp only [Exporter.settle] <;> omega
  · cases result <;> cases hf : s.failing <;> simp [Exporter.settle, hf, hwarnings]
  · rw [confirmed_settle, delivered_settle, List.length_append, List.length_append]
    cases result <;> simp [Exporter.settle, ExportResult.isOk] <;> omega

theorem Counted.next (hs : s.Counted) (h : next s a = some t) : t.Counted := by
  cases a with
  | record span =>
    obtain ⟨-, h⟩ := Option.ite_none_right_eq_some.mp h
    split_ifs at h <;> cases h <;> exact ⟨hs.spans, hs.warnings, hs.failed⟩
  | flush =>
    obtain ⟨-, h⟩ := Option.ite_none_right_eq_some.mp h
    cases h
    exact ⟨hs.spans, hs.warnings, hs.failed⟩
  | close =>
    cases h
    exact ⟨hs.spans, hs.warnings, hs.failed⟩
  | recv =>
    obtain ⟨-, h⟩ := Option.ite_none_left_eq_some.mp h
    split at h
    · cases h
      dsimp only
      split_ifs
      · exact counted_exportBatch.mpr ⟨hs.spans, hs.warnings, hs.failed⟩
      · exact ⟨hs.spans, hs.warnings, hs.failed⟩
    · cases h
      exact counted_exportBatch.mpr ⟨hs.spans, hs.warnings, hs.failed⟩
    · obtain ⟨-, h⟩ := Option.ite_none_left_eq_some.mp h
      cases h
      exact counted_exportBatch.mpr hs
  | tick =>
    obtain ⟨-, h⟩ := Option.ite_none_left_eq_some.mp h
    cases h
    exact counted_exportBatch.mpr hs
  | answer result =>
    obtain ⟨⟨spans, after⟩, -, rfl⟩ := Option.map_eq_some_iff.mp h
    have hrest : Counted { s with sending := none } := ⟨hs.spans, hs.warnings, hs.failed⟩
    exact counted_resume.mpr (hrest.settle spans result)

theorem counted_of_reachable (h : system.Reachable s) : s.Counted := by
  refine h.invariant (I := Counted) ?_ fun _ _ _ hs hstep => hs.next hstep
  rintro s rfl
  exact ⟨rfl, rfl, rfl⟩

theorem confirmed_sublist (s : Exporter α) : s.confirmed.Sublist s.delivered :=
  (List.filter_sublist.map Prod.fst).flatten

theorem excess_eq_zero : s.excess = 0 ↔
    ∀ spans rejected, (spans, .ok rejected) ∈ s.sent → rejected.toNat ≤ spans.length := by
  unfold excess
  rw [List.sum_eq_zero_iff_forall_eq_nat]
  constructor
  · intro hall spans rejected hmem
    have hzero := hall _ (List.mem_map_of_mem hmem)
    exact Nat.sub_eq_zero_iff_le.mp hzero
  · intro hall n hn
    obtain ⟨⟨spans, result⟩, hmem, rfl⟩ := List.mem_map.mp hn
    cases result with
    | ok rejected => exact Nat.sub_eq_zero_of_le (hall spans rejected hmem)
    | err => rfl

theorem Sound.delivered_of_stopped (hs : s.Sound) (hstopped : s.stopped = true) :
    s.delivered = s.accepted := by
  obtain ⟨-, hqueue, hbatch⟩ := hs.stopping (.inr hstopped)
  have horder := hs.order
  rw [hqueue, hbatch, inFlight, hs.returned hstopped] at horder
  simpa [spansOf] using horder.symm

/-- In every state of every run, the spans accepted so far are those of the finished requests, of
the one under way, of the batch and of the queue, in this order; requests have between 1 and 512
spans. An acknowledged flush has sent the spans accepted before it, and an exporter that has
returned has sent all. Each span sent is counted as exported, rejected or failed unless a collector
rejects more than it got, and there is one warning for each outage. -/
theorem exporter_conserves (h : system.Reachable s) :
    s.accepted = s.delivered ++ (s.inFlight ++ (s.batch ++ spansOf s.queue)) ∧
    s.queue.length ≤ 4096 ∧ s.batch.length < 512 ∧
    (∀ r ∈ s.sent, 0 < r.1.length ∧ r.1.length ≤ 512) ∧
    (∀ n ∈ s.acked, s.accepted.take n <+: s.delivered) ∧
    (s.stopped = true → s.delivered = s.accepted) ∧
    s.delivered.length ≤ s.exported + s.rejected + s.exportFailed ∧
    (s.exported + s.rejected + s.exportFailed = s.delivered.length ↔
      ∀ spans rejected, (spans, .ok rejected) ∈ s.sent → rejected.toNat ≤ spans.length) ∧
    s.warnings = s.recoveries + s.failing.toNat := by
  have hs := sound_of_reachable h
  have hcounted := counted_of_reachable h
  refine ⟨hs.order, hs.queue, Nat.lt_of_le_pred (by decide) hs.batch, hs.sizes, ?_,
    hs.delivered_of_stopped, ?_, ?_, hcounted.warnings⟩
  · intro n hn
    rw [hs.order, List.take_append_of_le_length (hs.acked n hn)]
    exact List.take_prefix n s.delivered
  · rw [hcounted.spans]
    exact Nat.le_add_right _ _
  · rw [← excess_eq_zero, hcounted.spans]
    omega

/-- Two spans are flushed, of which the collector rejects one, while a third one comes. -/
def flushed : Exporter ℕ :=
  Transition.run next start
    [.record 7, .record 8, .flush, .recv, .record 9, .recv, .recv, .answer (.ok 1)]

theorem exporter_conserves_flushed :
    flushed.acked = [2] ∧ flushed.accepted.take 2 <+: flushed.delivered ∧
      flushed.exported + flushed.rejected + flushed.exportFailed = 2 ∧ flushed.exported = 1 := by
  have hr : system.Reachable flushed := ⟨_, rfl, Transition.reaches_run (by decide)⟩
  obtain ⟨-, -, -, -, hacked, -, -, hcount, -⟩ := exporter_conserves hr
  have hsent : flushed.sent = [([7, 8], .ok 1)] := by decide
  refine ⟨by decide, hacked 2 (by decide), hcount.mpr ?_, by decide⟩
  intro spans rejected hmem
  rw [hsent, List.mem_singleton] at hmem
  cases hmem
  decide

end Exporter

end Stouter
