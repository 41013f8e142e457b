import Stouter.Gossip.Store
import Stouter.Transition.Basic

/-! # Version order of one daemon

A daemon interleaves the sections that hold the write lock with
`persist_state` tasks, which borrow the configuration under the read lock and
write it to the file later. Versions in memory only grow. As long as no other
process writes the config file, it trails memory, so a poll pass finds nothing
to adopt.
-/

namespace Stouter

/-- The store, and the configurations borrowed by `persist_state` tasks that hold the read lock. -/
structure LockedStore where
  store : Store
  readers : List DynamicConfig
  deriving DecidableEq

/-- The steps of the tasks of one daemon; `edit` is a write of the file by another process. -/
inductive StoreAct
  | sync (config : DynamicConfig) (saved : Bool)
  | configUpdate (config : DynamicConfig) (saved : Bool)
  | admin (op : AdminOp) (saved : Bool)
  | poll (loaded saved : Bool)
  | lockRead
  | persist (reader : ℕ) (saved : Bool)
  | edit (file : Option DynamicConfig)

namespace LockedStore

/-- Run a section under the write lock, which waits for the readers to finish. -/
def write (s : LockedStore) (f : Store → Store) : Option LockedStore :=
  if s.readers.isEmpty then some { s with store := f s.store } else none

def next (http : HttpCrate) (s : LockedStore) : StoreAct → Option LockedStore
  | .sync config saved => s.write (·.merge config saved)
  | .configUpdate config saved => s.write (·.merge config saved)
  | .admin op saved => s.write fun st => (st.admin http op saved).2
  | .poll loaded saved => s.write fun st => (st.poll loaded saved).2
  | .lockRead => some { s with readers := s.store.memory :: s.readers }
  | .persist reader saved =>
    s.readers[reader]?.map fun dc => ⟨s.store.persist dc saved, s.readers.eraseIdx reader⟩
  | .edit file => some { s with store := { s.store with file } }

def Started (s : LockedStore) : Prop :=
  s.store.file = some s.store.memory ∧ s.readers = [] ∧ s.store.memory.version ≠ maxVersion

/-- The runs of one daemon in which no version reaches `u64::MAX`. -/
def daemon (http : HttpCrate) : Transition LockedStore StoreAct :=
  (Transition.ofNext Started (next http)).restrict fun _ _ t =>
    t.store.memory.version ≠ maxVersion

/-- The runs in which no other process writes the config file. -/
def unshared (http : HttpCrate) : Transition LockedStore StoreAct :=
  (daemon http).restrict fun _ a _ => ∀ file, a ≠ .edit file

/-- Readers borrow the configuration in memory, which no version bump can overflow. -/
structure Sound (s : LockedStore) : Prop where
  readers : ∀ dc ∈ s.readers, dc = s.store.memory
  version : s.store.memory.version ≠ maxVersion

variable {http : HttpCrate} {s t : LockedStore} {a : StoreAct}

theorem write_eq {f : Store → Store} (h : s.write f = some t) :
    s.readers = [] ∧ t = { s with store := f s.store } := by
  unfold write at h
  split_ifs at h with he
  exact ⟨List.isEmpty_iff.mp he, (Option.some.inj h).symm⟩

/-- A step either advances the store, leaving no reader behind an old configuration, or is an
edit of the file from outside. -/
theorem next_cases (hs : s.Sound) (h : next http s a = some t) :
    (s.store.Advances t.store ∧ ∀ dc ∈ t.readers, dc = t.store.memory) ∨
      ∃ file, a = .edit file ∧ t = { s with store := { s.store with file } } := by
  have hw : ∀ {f : Store → Store}, s.write f = some t → s.store.Advances (f s.store) →
      s.store.Advances t.store ∧ ∀ dc ∈ t.readers, dc = t.store.memory := by
    intro f hf ha
    obtain ⟨hr, rfl⟩ := write_eq hf
    exact ⟨ha, by simp [hr]⟩
  cases a with
  | sync config saved => exact .inl (hw h (Store.advances_merge config saved s.store))
  | configUpdate config saved => exact .inl (hw h (Store.advances_merge config saved s.store))
  | admin op saved =>
    exact .inl (hw (f := fun st => (st.admin http op saved).2) h
      (Store.advances_admin http op saved hs.version))
  | poll loaded saved =>
    exact .inl (hw (f := fun st => (st.poll loaded saved).2) h
      (Store.advances_poll loaded saved hs.version))
  | lockRead =>
    obtain rfl := Option.some.inj h
    exact .inl ⟨.refl _, by simpa using hs.readers⟩
  | persist reader saved =>
    obtain ⟨dc, hd, rfl⟩ := Option.map_eq_some_iff.mp h
    -- The lock kept memory as it was when the reader borrowed it.
    obtain rfl : dc = s.store.memory := hs.readers dc (List.mem_of_getElem? hd)
    refine .inl ⟨⟨.inl rfl, Store.persistStateWith_cases saved _ s.store.file⟩, ?_⟩
    exact fun d hm => hs.readers d (List.mem_of_mem_eraseIdx hm)
  | edit file => exact .inr ⟨file, rfl, (Option.some.inj h).symm⟩

theorem Sound.step (hs : s.Sound) (h : (daemon http).step s a t) : t.Sound := by
  obtain ⟨hn, hv⟩ := h
  rcases next_cases hs hn with ⟨_, hr⟩ | ⟨file, _, rfl⟩
  · exact ⟨hr, hv⟩
  · exact ⟨hs.readers, hv⟩

theorem Started.sound (h : Started s) : s.Sound := ⟨by simp [h.2.1], h.2.2⟩

theorem sound_of_reachable (h : (daemon http).Reachable s) : s.Sound :=
  h.invariant (fun _ => Started.sound) fun _ _ _ hs h => Sound.step hs h

def Grows (s t : LockedStore) : Prop :=
  s.store.memory.version ≤ t.store.memory.version ∧
    (t.store.memory ≠ s.store.memory → s.store.memory.version < t.store.memory.version)

theorem Grows.trans {u : LockedStore} (h₁ : Grows s t) (h₂ : Grows t u) : Grows s u := by
  refine ⟨UInt64.le_trans h₁.1 h₂.1, fun hne => ?_⟩
  by_cases ht : t.store.memory = s.store.memory
  · rw [← ht] at hne ⊢
    exact h₂.2 hne
  · exact UInt64.lt_of_lt_of_le (h₁.2 ht) h₂.1

theorem grows_of_step (hs : s.Sound) (h : (daemon http).step s a t) : Grows s t := by
  rcases next_cases hs h.1 with ⟨ha, _⟩ | ⟨file, _, rfl⟩
  · rcases ha.memory with he | hlt
    · exact ⟨by rw [he]; exact UInt64.le_refl _, fun hne => absurd he hne⟩
    · exact ⟨UInt64.le_of_lt hlt, fun _ => hlt⟩
  · exact ⟨UInt64.le_refl _, fun hne => absurd rfl hne⟩

theorem grows_of_reaches (hs : s.Sound) (h : (daemon http).Reaches s t) : Grows s t :=
  h.respects (fun _ => ⟨UInt64.le_refl _, fun hne => absurd rfl hne⟩) (fun _ _ _ => Grows.trans)
    (fun _ _ _ hs h => Sound.step hs h) (fun _ _ _ hs h => grows_of_step hs h) hs

/-! ## The file trails memory -/

/-- The file holds a configuration older than memory's, or the same one. -/
def Trails (s : LockedStore) : Prop :=
  ∃ f, s.store.file = some f ∧
    (f = s.store.memory ∨ f.version < s.store.memory.version)

theorem adopted_eq_none {memory file : DynamicConfig}
    (h : file = memory ∨ file.version < memory.version) : Store.adopted memory file = none := by
  rcases h with rfl | hlt
  · simp [Store.adopted]
  · have hgt : ¬ file.version > memory.version := UInt64.lt_asymm hlt
    have hne : file.version ≠ memory.version := UInt64.ne_of_lt hlt
    simp [Store.adopted, hgt, hne]

theorem Trails.poll (h : Trails s) (loaded saved : Bool) :
    (s.store.poll loaded saved).2 = s.store := by
  obtain ⟨f, hf, hc⟩ := h
  unfold Store.poll
  cases loaded with
  | false => rfl
  | true => simp [hf, adopted_eq_none hc]

theorem unshared_advances (hs : s.Sound) (h : (unshared http).step s a t) :
    s.store.Advances t.store := by
  rcases next_cases hs h.1.1 with ⟨ha, _⟩ | ⟨file, he, _⟩
  · exact ha
  · exact absurd he (h.2 file)

theorem Trails.step (ht : Trails s) (hs : s.Sound) (h : (unshared http).step s a t) : Trails t := by
  obtain ⟨f, hf, hc⟩ := ht
  have ha := unshared_advances hs h
  rcases ha.file with he | he
  · refine ⟨f, he.trans hf, ?_⟩
    rcases ha.memory with hm | hm
    · rwa [hm]
    · right
      rcases hc with rfl | hlt
      · exact hm
      · exact UInt64.lt_trans hlt hm
  · exact ⟨_, he, .inl rfl⟩

theorem sound_trails_step (hs : s.Sound ∧ Trails s) (h : (unshared http).step s a t) :
    t.Sound ∧ Trails t :=
  ⟨hs.1.step h.1, hs.2.step hs.1 h⟩

theorem sound_trails_of_reachable (h : (unshared http).Reachable s) : s.Sound ∧ Trails s :=
  h.invariant (I := fun s => s.Sound ∧ Trails s)
    (fun _ h₀ => ⟨Started.sound h₀, _, And.left h₀, .inl rfl⟩)
    fun _ _ _ hs h => sound_trails_step hs h

theorem file_version_le (hs : s.Sound ∧ Trails s) (h : (unshared http).Reaches s t) :
    ∀ f ∈ s.store.file, ∀ f' ∈ t.store.file, f.version ≤ f'.version := by
  induction h with
  | refl =>
    intro f hf f' hf'
    rw [Option.mem_def.mp hf] at hf'
    rw [Option.some.inj hf']
    exact UInt64.le_refl _
  | @tail u t hr h ih =>
    obtain ⟨a, ha⟩ := h
    have hu : u.Sound ∧ Trails u :=
      Transition.Reaches.preserves (I := fun s => s.Sound ∧ Trails s)
        (fun _ _ _ hs h => sound_trails_step hs h) hr hs
    intro f hf f' hf'
    obtain ⟨g, hg, hc⟩ := hu.2
    have hle := ih f hf g hg
    rcases (unshared_advances hu.1 ha).file with he | he
    · rw [he] at hf'
      exact ih f hf f' hf'
    · obtain rfl : f' = t.store.memory := by simpa [he] using hf'.symm
      have hm := (grows_of_step hu.1 ha.1).1
      rcases hc with rfl | hlt
      · exact UInt64.le_trans hle hm
      · exact UInt64.le_trans hle (UInt64.le_trans (UInt64.le_of_lt hlt) hm)

/-- Memory's version never decreases and grows with every change. If no other process writes the
file, what a step writes to it is memory's configuration, its version never exceeds memory's and
never decreases, and a poll pass leaves the store alone. -/
theorem version_order (http : HttpCrate) :
    (∀ s t, (daemon http).Reachable s → (daemon http).Reaches s t →
      s.store.memory.version ≤ t.store.memory.version ∧
        (t.store.memory ≠ s.store.memory → s.store.memory.version < t.store.memory.version)) ∧
    ∀ s, (unshared http).Reachable s →
      (∃ f, s.store.file = some f ∧ f.version ≤ s.store.memory.version) ∧
      (∀ a t, (unshared http).step s a t →
        (t.store.file = s.store.file ∨ t.store.file = some t.store.memory) ∧
        (∀ loaded saved, a = .poll loaded saved → t.store = s.store)) ∧
      ∀ t, (unshared http).Reaches s t →
        ∀ f ∈ s.store.file, ∀ f' ∈ t.store.file, f.version ≤ f'.version := by
  refine ⟨fun s t hs h => grows_of_reaches (sound_of_reachable hs) h, fun s hs => ?_⟩
  have hst := sound_trails_of_reachable hs
  refine ⟨?_, fun a t h => ⟨(unshared_advances hst.1 h).file, ?_⟩, fun t h => file_version_le hst h⟩
  · obtain ⟨f, hf, rfl | hlt⟩ := hst.2
    · exact ⟨_, hf, UInt64.le_refl _⟩
    · exact ⟨f, hf, UInt64.le_of_lt hlt⟩
  · rintro loaded saved rfl
    obtain ⟨_, rfl⟩ := write_eq (f := fun st => (st.poll loaded saved).2) h.1.1
    exact hst.2.poll loaded saved

def startedAtFive : LockedStore :=
  ⟨⟨⟨5, [], []⟩, some ⟨5, [], []⟩⟩, []⟩

/-- The same daemon after an admin mutation whose save failed. -/
def savedBehind : LockedStore :=
  ⟨⟨⟨6, [], []⟩, some ⟨5, [], []⟩⟩, []⟩

theorem version_order_savedBehind :
    (unshared plainHttp).Reachable savedBehind ∧
      (∃ f, savedBehind.store.file = some f ∧ f.version ≤ savedBehind.store.memory.version) ∧
      ∀ saved t, (unshared plainHttp).step savedBehind (.poll true saved) t →
        t.store = savedBehind.store := by
  have hr : (unshared plainHttp).Reachable savedBehind := by
    have h₀ : Started startedAtFive := ⟨rfl, rfl, by decide⟩
    have h₁ : next plainHttp startedAtFive (.admin (.routesSet "api" []) false) =
        some savedBehind := by decide
    exact ⟨startedAtFive, h₀, .head ⟨⟨h₁, by decide⟩, by simp⟩ (.refl _)⟩
  obtain ⟨hf, hstep, _⟩ := (version_order plainHttp).2 savedBehind hr
  exact ⟨hr, hf, fun saved t h => (hstep _ t h).2 true saved rfl⟩

end LockedStore

end Stouter
