import Mathlib.Init

/-! # Actions that can be cut short

An action runs from a state and ends with a value or an error. On the way it
passes through states that a reader can see and at which the machine can stop.
A triple says what holds in each of them, besides what holds at the end.
-/

namespace Crash

variable {σ ε α β : Type}

structure Outcome (σ ε α : Type) where
  moments : List σ
  result : Except ε α
  final : σ

/-- Each action gives the states it passes through, its result and the state it leaves. -/
def Action (σ ε α : Type) := σ → Outcome σ ε α

namespace Action

/-- A call that reads or changes the state at once, or fails and changes nothing. -/
def call (f : σ → Except ε (α × σ)) : Action σ ε α := fun s =>
  match f s with
  | .ok (a, t) => ⟨[t], .ok a, t⟩
  | .error e => ⟨[], .error e, s⟩

def fail (e : ε) : Action σ ε α := fun s => ⟨[], .error e, s⟩

/-- Run an action and keep its error as a value. -/
def attempt (x : Action σ ε α) : Action σ ε (Except ε α) := fun s =>
  ⟨(x s).moments, .ok (x s).result, (x s).final⟩

def andThen (x : Action σ ε α) (f : α → Action σ ε β) : Action σ ε β := fun s =>
  match (x s).result with
  | .error e => ⟨(x s).moments, .error e, (x s).final⟩
  | .ok a =>
    let next := f a (x s).final
    ⟨(x s).moments ++ next.moments, next.result, next.final⟩

instance : Monad (Action σ ε) where
  pure a := fun s => ⟨[], .ok a, s⟩
  bind := andThen

/-- The states a crash can find: where the action starts, each on its way, and the last. -/
def visited (x : Action σ ε α) (s : σ) : List σ := s :: (x s).moments ++ [(x s).final]

end Action

/-- From a state with `P` the action passes through states with `C` only and ends as `Q` says. -/
def Triple (P : σ → Prop) (x : Action σ ε α) (C : σ → Prop) (Q : Except ε α → σ → Prop) : Prop :=
  ∀ s, P s → (∀ m ∈ (x s).moments, C m) ∧ Q (x s).result (x s).final

namespace Triple

variable {P P' C C' : σ → Prop} {Q R : Except ε α → σ → Prop} {x : Action σ ε α}

theorem weaken (h : Triple P x C R) (hP : ∀ s, P' s → P s) (hC : ∀ s, C s → C' s)
    (hQ : ∀ r s, R r s → Q r s) : Triple P' x C' Q := by
  intro s hs
  obtain ⟨hm, hr⟩ := h s (hP s hs)
  exact ⟨fun m hmem => hC m (hm m hmem), hQ _ _ hr⟩

theorem mono (h : Triple P x C Q) (hC : ∀ s, C s → C' s) : Triple P x C' Q :=
  h.weaken (fun _ hs => hs) hC fun _ _ hq => hq

theorem given {h : Prop} (hx : h → Triple P x C Q) : Triple (fun s => h ∧ P s) x C Q :=
  fun s hs => hx hs.1 s hs.2

theorem each (h : ∀ s, P s → Triple (· = s) x C Q) : Triple P x C Q := fun s hs => h s hs s rfl

theorem pure {a : α} (h : ∀ s, P s → Q (.ok a) s) :
    Triple P (Pure.pure a : Action σ ε α) C Q := fun s hs => ⟨by rintro m ⟨⟩, h s hs⟩

theorem fail {e : ε} (h : ∀ s, P s → Q (.error e) s) :
    Triple P (Action.fail e : Action σ ε α) C Q := fun s hs => ⟨by rintro m ⟨⟩, h s hs⟩

theorem call {f : σ → Except ε (α × σ)}
    (hok : ∀ s a t, P s → f s = .ok (a, t) → C t ∧ Q (.ok a) t)
    (herror : ∀ s e, P s → f s = .error e → Q (.error e) s) : Triple P (Action.call f) C Q := by
  intro s hs
  unfold Action.call
  split
  · next a t hf =>
    obtain ⟨hC, hQ⟩ := hok s a t hs hf
    exact ⟨by simpa using hC, hQ⟩
  · next e hf => exact ⟨by rintro m ⟨⟩, herror s e hs hf⟩

theorem bind {Q : Except ε β → σ → Prop} {f : α → Action σ ε β} (hx : Triple P x C R)
    (hf : ∀ a, Triple (R (.ok a)) (f a) C Q) (he : ∀ e s, R (.error e) s → Q (.error e) s) :
    Triple P (x >>= f) C Q := by
  intro s hs
  obtain ⟨hm, hr⟩ := hx s hs
  change (∀ m ∈ (x.andThen f s).moments, C m) ∧ _
  change _ ∧ Q (x.andThen f s).result (x.andThen f s).final
  unfold Action.andThen
  split
  · next e h => exact ⟨hm, he e _ (h ▸ hr)⟩
  · next a h =>
    obtain ⟨hm', hr'⟩ := hf a _ (h ▸ hr)
    refine ⟨fun m hmem => ?_, hr'⟩
    rcases List.mem_append.mp hmem with hmem | hmem
    · exact hm m hmem
    · exact hm' m hmem

theorem attempt_bind {Q : Except ε β → σ → Prop} {f : Except ε α → Action σ ε β}
    (hx : Triple P x C R) (hf : ∀ r, Triple (R r) (f r) C Q) : Triple P (x.attempt >>= f) C Q := by
  have h : Triple P x.attempt C fun r s => ∃ r', r = .ok r' ∧ R r' s := fun s hs =>
    ⟨(hx s hs).1, _, rfl, (hx s hs).2⟩
  refine h.bind ?_ (by rintro e s ⟨r, ⟨⟩, -⟩)
  rintro r s ⟨r', h, hr⟩
  cases h
  exact hf r s hr

end Triple

end Crash
