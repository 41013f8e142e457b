import Mathlib.Logic.Relation

/-! # Labelled transition systems

A system has initial states and labelled steps. Safety results are proved by
showing that one step preserves an invariant; results about runs that respect
a side condition are stated for the restricted system, whose steps are the
steps meeting the condition.
-/

/-- Initial states and labelled steps. -/
structure Transition (σ α : Type*) where
  init : σ → Prop
  step : σ → α → σ → Prop

namespace Transition

variable {σ α : Type*}

def Step (S : Transition σ α) (s t : σ) : Prop := ∃ a, S.step s a t

def Reaches (S : Transition σ α) : σ → σ → Prop := Relation.ReflTransGen S.Step

def Reachable (S : Transition σ α) (t : σ) : Prop := ∃ s, S.init s ∧ S.Reaches s t

/-- The system whose steps are those meeting a condition. -/
def restrict (S : Transition σ α) (C : σ → α → σ → Prop) : Transition σ α where
  init := S.init
  step s a t := S.step s a t ∧ C s a t

/-- The system of an executable next-state function. -/
def ofNext (init : σ → Prop) (next : σ → α → Option σ) : Transition σ α where
  init := init
  step s a t := next s a = some t

/-- Run a list of labels through an executable next-state function. -/
def exec (next : σ → α → Option σ) : σ → List α → Option σ
  | s, [] => some s
  | s, a :: as => (next s a).bind fun t => exec next t as

/-- The state a list of labels leads to, or the start if one of them is not possible. -/
def run (next : σ → α → Option σ) (s : σ) (as : List α) : σ := (exec next s as).getD s

variable {S : Transition σ α} {s t u : σ} {a : α}

theorem Reaches.refl (s : σ) : S.Reaches s s := Relation.ReflTransGen.refl

theorem Reaches.snoc (h : S.Reaches s t) (hs : S.step t a u) : S.Reaches s u :=
  Relation.ReflTransGen.tail h ⟨a, hs⟩

theorem Reaches.head (hs : S.step s a t) (h : S.Reaches t u) : S.Reaches s u :=
  Relation.ReflTransGen.head ⟨a, hs⟩ h

theorem Reaches.of_restrict {C : σ → α → σ → Prop} (h : (S.restrict C).Reaches s t) :
    S.Reaches s t := by
  induction h with
  | refl => exact .refl s
  | tail _ h ih =>
    obtain ⟨a, ha, _⟩ := h
    exact ih.snoc ha

theorem Reachable.of_init (h : S.init s) : S.Reachable s := ⟨s, h, .refl s⟩

theorem Reachable.snoc (h : S.Reachable s) (hs : S.step s a t) : S.Reachable t := by
  obtain ⟨s₀, h₀, hr⟩ := h
  exact ⟨s₀, h₀, hr.snoc hs⟩

theorem Reachable.trans (h : S.Reachable s) (hr : S.Reaches s t) : S.Reachable t := by
  obtain ⟨s₀, h₀, hr₀⟩ := h
  exact ⟨s₀, h₀, Relation.ReflTransGen.trans hr₀ hr⟩

theorem Reaches.preserves {I : σ → Prop} (hI : ∀ s a t, I s → S.step s a t → I t)
    (h : S.Reaches s t) (hs : I s) : I t := by
  induction h with
  | refl => exact hs
  | tail _ h ih =>
    obtain ⟨a, ha⟩ := h
    exact hI _ _ _ ih ha

/-- A predicate that holds initially and is kept by every step is an invariant. -/
theorem Reachable.invariant {I : σ → Prop} (h₀ : ∀ s, S.init s → I s)
    (hI : ∀ s a t, I s → S.step s a t → I t) (h : S.Reachable t) : I t := by
  obtain ⟨s, hs, hr⟩ := h
  exact hr.preserves hI (h₀ s hs)

/-- A preorder that every step from a state of the invariant respects is respected by runs. -/
theorem Reaches.respects {I : σ → Prop} {R : σ → σ → Prop} (hrefl : ∀ s, R s s)
    (htrans : ∀ s t u, R s t → R t u → R s u) (hI : ∀ s a t, I s → S.step s a t → I t)
    (hR : ∀ s a t, I s → S.step s a t → R s t) (h : S.Reaches s t) (hs : I s) : R s t := by
  induction h with
  | refl => exact hrefl s
  | tail hr h ih =>
    obtain ⟨a, ha⟩ := h
    exact htrans _ _ _ ih (hR _ _ _ (Reaches.preserves hI hr hs) ha)

theorem reaches_of_exec {init : σ → Prop} {next : σ → α → Option σ} {as : List α}
    (h : exec next s as = some t) : (ofNext init next).Reaches s t := by
  induction as generalizing s with
  | nil =>
    obtain rfl : s = t := by simpa [exec] using h
    exact .refl s
  | cons a as ih =>
    obtain ⟨r, hr, ht⟩ := Option.bind_eq_some_iff.mp h
    exact .head (S := ofNext init next) (a := a) hr (ih ht)

theorem reaches_restrict_of_exec {init : σ → Prop} {next : σ → α → Option σ}
    {C : σ → α → Prop} [∀ s a, Decidable (C s a)] (as : List α)
    (h : exec (fun s a => if C s a then next s a else none) s as = some t) :
    ((ofNext init next).restrict fun s a _ => C s a).Reaches s t := by
  induction as generalizing s with
  | nil =>
    obtain rfl : s = t := by simpa [exec] using h
    exact .refl s
  | cons a as ih =>
    obtain ⟨r, hr, ht⟩ := Option.bind_eq_some_iff.mp h
    obtain ⟨hc, hr⟩ := Option.ite_none_right_eq_some.mp hr
    exact .head (S := (ofNext init next).restrict fun s a _ => C s a) (a := a) ⟨hr, hc⟩ (ih ht)

theorem reaches_of_steps (next : σ → α → Option σ) (as : List α)
    (hstep : ∀ a ∈ as, ∀ s t, next s a = some t → S.step s a t) (h : exec next s as = some t) :
    S.Reaches s t := by
  induction as generalizing s with
  | nil =>
    obtain rfl : s = t := by simpa [exec] using h
    exact .refl s
  | cons a as ih =>
    obtain ⟨r, hr, ht⟩ := Option.bind_eq_some_iff.mp h
    exact .head (hstep a List.mem_cons_self s r hr)
      (ih (fun b hb => hstep b (List.mem_cons_of_mem a hb)) ht)

theorem next_eq_some_run {next : σ → α → Option σ} (h : (next s a).isSome = true) :
    next s a = some (run next s [a]) := by
  obtain ⟨t, ht⟩ := Option.isSome_iff_exists.mp h
  simp [run, exec, ht]

theorem reaches_run {init : σ → Prop} {next : σ → α → Option σ} {as : List α}
    (h : (exec next s as).isSome = true) : (ofNext init next).Reaches s (run next s as) := by
  obtain ⟨t, ht⟩ := Option.isSome_iff_exists.mp h
  rw [run, ht]
  exact reaches_of_exec ht

end Transition
