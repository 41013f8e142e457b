import Stouter.Crash.Basic
import Mathlib.Data.Nat.Notation
import Mathlib.Logic.Function.Basic

/-! # Files on a disk that can crash

A disk gives each path an entry. The bytes of a file are safe from a crash once
the file is synced, and what an entry names once its directory is synced; until
then a crash can bring back what the entry named before. Each call is given its
answer: the error it fails with, if any.
-/

namespace Files

open Crash

/-- The error kinds of `std::io`. -/
inductive ErrorKind
  | notFound | permissionDenied | connectionRefused | connectionReset | hostUnreachable
  | networkUnreachable | connectionAborted | notConnected | addrInUse | addrNotAvailable
  | networkDown | brokenPipe | alreadyExists | wouldBlock | notADirectory | isADirectory
  | directoryNotEmpty | readOnlyFilesystem | filesystemLoop | staleNetworkFileHandle
  | invalidInput | invalidData | timedOut | writeZero | storageFull | notSeekable
  | quotaExceeded | fileTooLarge | resourceBusy | executableFileBusy | deadlock
  | crossesDevices | tooManyLinks | invalidFilename | argumentListTooLong | interrupted
  | unsupported | unexpectedEof | outOfMemory | inProgress | other | uncategorized
  deriving DecidableEq, Repr

structure Metadata where
  mode : UInt32
  uid : UInt32
  gid : UInt32
  deriving DecidableEq, Repr

structure File (β : Type) where
  bytes : List β
  metadata : Metadata
  synced : Bool
  deriving DecidableEq, Repr

/-- The file of a path, and those it had since its directory was synced, the latest first. -/
structure Entry (β : Type) where
  file : Option (File β)
  past : List (Option (File β))
  deriving DecidableEq, Repr

def Disk (π β : Type) := π → Entry β

variable {π β : Type}

/-- What a reader finds, `none` where there is no file. -/
def Entry.contents (e : Entry β) : Option (List β) := e.file.map File.bytes

/-- What can be left of a file after a crash: any bytes, unless they were synced. -/
def Leaves : Option (File β) → Option (List β) → Prop
  | none, c => c = none
  | some f, c => ∃ bytes, c = some bytes ∧ (f.synced = true → bytes = f.bytes)

/-- What is found in an entry, now or after a crash. -/
def Entry.Shows (e : Entry β) (c : Option (List β)) : Prop :=
  e.contents = c ∨ ∃ f ∈ e.file :: e.past, Leaves f c

def Entry.atRest (file : Option (Metadata × List β)) : Entry β :=
  ⟨file.map fun f => ⟨f.2, f.1, true⟩, []⟩

theorem Entry.atRest_shows {file : Option (Metadata × List β)} {c : Option (List β)} :
    (Entry.atRest file).Shows c ↔ c = (Entry.atRest file).contents := by
  constructor
  · rintro (h | ⟨f, hf, h⟩)
    · exact h.symm
    · rw [List.mem_singleton.mp hf] at h
      cases file with
      | none => exact h
      | some f =>
        obtain ⟨bytes, rfl, hbytes⟩ := h
        rw [hbytes rfl]
        rfl
  · rintro rfl
    exact .inl rfl

theorem Entry.shows_of_not_synced {e : Entry β} {f : File β} (h : e.file = some f)
    (hf : f.synced = false) (bytes : List β) : e.Shows (some bytes) :=
  .inr ⟨some f, by simp [h], bytes, rfl, by simp [hf]⟩

abbrev Call (π β α : Type) := Action (Disk π β) ErrorKind α

/-- A call that fails with the error it is given, before it does anything. -/
def sys {α : Type} (fault : Option ErrorKind)
    (f : Disk π β → Except ErrorKind (α × Disk π β)) : Call π β α :=
  Action.call fun d => match fault with
    | some e => .error e
    | none => f d

def metadata (fault : Option ErrorKind) (p : π) : Call π β Metadata :=
  sys fault fun d => match (d p).file with
    | none => .error .notFound
    | some f => .ok (f.metadata, d)

/-- Open a file to write to it, without truncating it. -/
def openWrite (fault : Option ErrorKind) (p : π) : Call π β Unit :=
  sys fault fun d => match (d p).file with
    | none => .error .notFound
    | some _ => .ok ((), d)

def openDir (fault : Option ErrorKind) : Call π β Unit := sys fault fun d => .ok ((), d)

/-- Sync a directory, given as the paths in it. -/
def syncDir (fault : Option ErrorKind) (dir : π → Bool) : Call π β Unit :=
  sys fault fun d => .ok ((), fun p => if dir p then { d p with past := [] } else d p)

section

variable {α : Type} {fault : Option ErrorKind} {p : π} {P C : Disk π β → Prop}

theorem sys_triple {f : Disk π β → Except ErrorKind (α × Disk π β)}
    {Q : Except ErrorKind α → Disk π β → Prop}
    (hfault : ∀ e d, fault = some e → P d → Q (.error e) d)
    (herror : ∀ e d, fault = none → P d → f d = .error e → Q (.error e) d)
    (hok : ∀ a d t, fault = none → P d → f d = .ok (a, t) → C t ∧ Q (.ok a) t) :
    Triple P (sys fault f) C Q := by
  cases fault with
  | some e =>
    refine Triple.call (by rintro d a t hd ⟨⟩) ?_
    rintro d e hd ⟨⟩
    exact hfault _ d rfl hd
  | none => exact Triple.call (fun d a t hd => hok a d t rfl hd) fun d e hd => herror e d rfl hd

theorem metadata_triple (hC : ∀ d, P d → C d) :
    Triple P (metadata fault p) C fun
      | .ok m => fun d => fault = none ∧ P d ∧ ∃ f, (d p).file = some f ∧ f.metadata = m
      | .error _ => fun d => (fault ≠ none ∨ (d p).file = none) ∧ P d := by
  refine sys_triple ?_ ?_ ?_
  · rintro e d rfl hd
    exact ⟨.inl (by simp), hd⟩
  · intro e d hfault hd h
    split at h
    · next hf => exact ⟨.inr hf, hd⟩
    · cases h
  · intro m d t hfault hd h
    split at h
    · cases h
    · next f hf =>
      cases h
      exact ⟨hC d hd, hfault, hd, f, hf, rfl⟩

theorem openWrite_triple (hC : ∀ d, P d → C d) (hP : ∀ d, P d → (d p).file ≠ none) :
    Triple P (openWrite fault p) C fun
      | .ok () => fun d => fault = none ∧ P d
      | .error e => fun d => fault = some e ∧ P d := by
  refine sys_triple (fun e d hfault hd => ⟨hfault, hd⟩) ?_ ?_
  · intro e d hfault hd h
    split at h
    · next hf => exact absurd hf (hP d hd)
    · cases h
  · intro u d t hfault hd h
    split at h
    · cases h
    · cases h
      exact ⟨hC d hd, hfault, hd⟩

theorem openDir_triple (hC : ∀ d, P d → C d) :
    Triple P (openDir fault) C fun _ d => P d := by
  refine sys_triple (fun e d _ hd => hd) (by rintro e d _ _ ⟨⟩) ?_
  rintro u d t - hd ⟨⟩
  exact ⟨hC d hd, hd⟩

/-- Syncing a directory leaves less for a crash to bring back. -/
theorem Entry.Shows.of_sync {e : Entry β} {c : Option (List β)}
    (h : Entry.Shows { e with past := [] } c) : e.Shows c := by
  rcases h with h | ⟨f, hf, h⟩
  · exact .inl h
  · exact .inr ⟨f, by simp [List.mem_singleton.mp hf], h⟩

theorem syncDir_triple {dir : π → Bool}
    (hP : ∀ d, P d → P fun p => if dir p then { d p with past := [] } else d p)
    (hC : ∀ d, P d → C d) : Triple P (syncDir fault dir) C fun _ d => P d := by
  refine sys_triple (fun e d _ hd => hd) (by rintro e d _ _ ⟨⟩) ?_
  rintro u d t - hd ⟨⟩
  exact ⟨hC _ (hP d hd), hP d hd⟩

end

/-- The disk is as before but for one path. -/
def Apart (p : π) (d₀ d : Disk π β) : Prop := ∀ q, q ≠ p → d q = d₀ q

/-- The disk is as before but for one path, which has a file such as `I` says. -/
def Draft (p : π) (d₀ : Disk π β) (I : File β → Prop) (d : Disk π β) : Prop :=
  Apart p d₀ d ∧ ∃ f, (d p).file = some f ∧ I f

theorem Draft.imp {p : π} {d₀ d : Disk π β} {I J : File β → Prop} (h : Draft p d₀ I d)
    (hI : ∀ f, I f → J f) : Draft p d₀ J d := by
  obtain ⟨hd, f, hf, hIf⟩ := h
  exact ⟨hd, f, hf, hI f hIf⟩

theorem drafted_triple {fault : Option ErrorKind} {p : π} {d₀ : Disk π β} {I : File β → Prop}
    {g : Disk π β → File β → Disk π β} {C : Disk π β → Prop}
    (hg : ∀ d f, Apart p d₀ d → (d p).file = some f → I f → C (g d f)) :
    Triple (Draft p d₀ I) (sys fault fun d => match (d p).file with
      | none => .error .notFound
      | some f => .ok ((), g d f)) C fun
      | .ok () => fun d => fault = none ∧ C d
      | .error e => fun d => fault = some e ∧ Draft p d₀ I d := by
  refine sys_triple (fun e d hfault hd => ⟨hfault, hd⟩) ?_ ?_
  · rintro e d hfault ⟨hd, f, hf, hI⟩ h
    simp [hf] at h
  · rintro u d t hfault ⟨hd, f, hf, hI⟩ h
    rw [hf] at h
    cases h
    exact ⟨hg d f hd hf hI, hfault, hg d f hd hf hI⟩

variable [DecidableEq π]

namespace Disk

def put (d : Disk π β) (p : π) (f : File β) : Disk π β :=
  Function.update d p { d p with file := some f }

def link (d : Disk π β) (p : π) (file : Option (File β)) : Disk π β :=
  Function.update d p ⟨file, (d p).file :: (d p).past⟩

variable {d : Disk π β} {p q : π}

@[simp] theorem put_self (f : File β) : d.put p f p = { d p with file := some f } :=
  Function.update_self ..

theorem put_of_ne (f : File β) (h : q ≠ p) : d.put p f q = d q := Function.update_of_ne h ..

@[simp] theorem link_self (file : Option (File β)) :
    d.link p file p = ⟨file, (d p).file :: (d p).past⟩ := Function.update_self ..

theorem link_of_ne (file : Option (File β)) (h : q ≠ p) : d.link p file q = d q :=
  Function.update_of_ne h ..

end Disk

def createNew (fault : Option ErrorKind) (fresh : Metadata) (p : π) : Call π β Unit :=
  sys fault fun d => match (d p).file with
    | some _ => .error .alreadyExists
    | none => .ok ((), d.link p (some ⟨[], fresh, false⟩))

/-- `File::create`: truncates the file if there is one. -/
def create (fault : Option ErrorKind) (fresh : Metadata) (p : π) : Call π β Unit :=
  sys fault fun d => match (d p).file with
    | none => .ok ((), d.link p (some ⟨[], fresh, false⟩))
    | some f => .ok ((), d.put p { f with bytes := [], synced := false })

def onFile (fault : Option ErrorKind) (p : π) (g : File β → File β) : Call π β Unit :=
  sys fault fun d => match (d p).file with
    | none => .error .notFound
    | some f => .ok ((), d.put p (g f))

def setPermissions (fault : Option ErrorKind) (p : π) (mode : UInt32) : Call π β Unit :=
  onFile fault p fun f => { f with metadata := { f.metadata with mode } }

def fchown (fault : Option ErrorKind) (p : π) (uid gid : UInt32) : Call π β Unit :=
  onFile fault p fun f => { f with metadata := { f.metadata with uid, gid } }

def syncAll (fault : Option ErrorKind) (p : π) : Call π β Unit :=
  onFile fault p fun f => { f with synced := true }

/-- Where a write stops: after how many bytes, and with which error. -/
abbrev Stop := Option (ℕ × ErrorKind)

def Stop.now : Stop → Option ErrorKind
  | some (0, e) => some e
  | _ => none

def Stop.later (stop : Stop) : Stop := stop.map fun s : ℕ × ErrorKind => (s.1 - 1, s.2)

/-- The error a write of all these bytes ends with. -/
def Stop.error (stop : Stop) (data : List β) : Option ErrorKind :=
  match stop with
  | some (n, e) => if n < data.length then some e else none
  | none => none

/-- `write_all`, with a reader or a crash between any two bytes. -/
def writeAll (stop : Stop) (p : π) : List β → Call π β Unit
  | [] => pure ()
  | b :: bs => do
    onFile stop.now p fun f => { f with bytes := f.bytes ++ [b], synced := false }
    writeAll stop.later p bs

/-- `fs::write`. -/
def write (fault : Option ErrorKind) (stop : Stop) (fresh : Metadata) (p : π)
    (data : List β) : Call π β Unit := do
  create fault fresh p
  writeAll stop p data

def rename (fault : Option ErrorKind) (p q : π) : Call π β Unit :=
  sys fault fun d => match (d p).file with
    | none => .error .notFound
    | some f => .ok ((), (d.link q (some f)).link p none)

def removeFile (fault : Option ErrorKind) (p : π) : Call π β Unit :=
  sys fault fun d => match (d p).file with
    | none => .error .notFound
    | some _ => .ok ((), d.link p none)

section

variable {d₀ d : Disk π β} {p q : π} {I J : File β → Prop} {fault : Option ErrorKind}
  {fresh : Metadata}

theorem Apart.put (h : Apart p d₀ d) (f : File β) : Apart p d₀ (d.put p f) := by
  intro q hq
  rw [Disk.put_of_ne f hq, h q hq]

theorem Apart.link (h : Apart p d₀ d) (file : Option (File β)) : Apart p d₀ (d.link p file) := by
  intro q hq
  rw [Disk.link_of_ne file hq, h q hq]

theorem onFile_triple {g : File β → File β} (hg : ∀ f, I f → J (g f)) :
    Triple (Draft p d₀ I) (onFile fault p g) (Apart p d₀) fun
      | .ok () => fun d => fault = none ∧ Draft p d₀ J d
      | .error e => fun d => fault = some e ∧ Draft p d₀ I d := by
  have hput : ∀ d f, Apart p d₀ d → (d p).file = some f → I f → Draft p d₀ J (d.put p (g f)) :=
    fun d f hd _ hI => ⟨hd.put _, g f, by rw [Disk.put_self], hg f hI⟩
  exact (drafted_triple hput).mono fun d hd => hd.1

theorem Stop.error_cons (stop : Stop) (b : β) (bs : List β) :
    stop.error (b :: bs) = stop.now.or (stop.later.error bs) := by
  match stop with
  | none => rfl
  | some (0, e) => simp [Stop.error, Stop.now]
  | some (n + 1, e) => simp [Stop.error, Stop.now, Stop.later]

/-- Each byte written is one byte of the data less to write. -/
theorem writeAll_triple {stop : Stop} {data : List β} (whole : List β) (d₀ : Disk π β) :
    Triple (Draft p d₀ fun f => f.bytes ++ data = whole ∧ f.synced = false) (writeAll stop p data)
      (Apart p d₀) fun
      | .ok () => fun d => stop.error data = none ∧
          Draft p d₀ (fun f => f.bytes = whole ∧ f.synced = false) d
      | .error e => fun d => stop.error data = some e ∧
          Draft p d₀ (fun f => f.synced = false) d := by
  induction data generalizing stop with
  | nil =>
    refine Triple.pure fun d hd => ⟨?_, by simpa using hd⟩
    cases stop <;> simp [Stop.error]
  | cons b bs ih =>
    refine Triple.bind
      (onFile_triple (J := fun f => f.bytes ++ bs = whole ∧ f.synced = false) ?_) ?_ ?_
    · rintro f ⟨hf, -⟩
      exact ⟨by simpa using hf, rfl⟩
    · rintro ⟨⟩
      refine Triple.given fun hfault => ?_
      rw [Stop.error_cons, hfault, Option.none_or]
      exact ih
    · rintro e d ⟨hfault, hd⟩
      rw [Stop.error_cons, hfault]
      exact ⟨rfl, hd.imp fun _ h => h.2⟩

theorem createNew_triple :
    Triple (· = d₀) (createNew fault fresh p) (Apart p d₀) fun
      | .ok () => fun d => (fault = none ∧ (d₀ p).file = none) ∧
          Draft p d₀ (fun f => f.bytes = [] ∧ f.synced = false) d
      | .error _ => fun d => (fault ≠ none ∨ (d₀ p).file ≠ none) ∧ d = d₀ := by
  refine sys_triple ?_ ?_ ?_
  · rintro e d hfault rfl
    exact ⟨.inl (by simp [hfault]), rfl⟩
  · rintro e d hfault rfl h
    split at h
    · next hf => exact ⟨.inr (by simp [hf]), rfl⟩
    · cases h
  · rintro u d t hfault rfl h
    split at h
    · cases h
    · next hf =>
      cases h
      have hd : Apart p d d := fun _ _ => rfl
      exact ⟨hd.link _, ⟨hfault, hf⟩, hd.link _, _, by rw [Disk.link_self], rfl, rfl⟩

theorem create_triple :
    Triple (· = d₀) (create fault fresh p) (fun _ => fault = none) fun
      | .ok () => fun d => fault = none ∧ Draft p d₀ (fun f => f.bytes = [] ∧ f.synced = false) d
      | .error e => fun d => fault = some e ∧ d = d₀ := by
  refine sys_triple (fun e d hfault hd => ⟨hfault, hd⟩) ?_ ?_
  · intro e d hfault hd h
    split at h <;> cases h
  · rintro u d t hfault rfl h
    have hd : Apart p d d := fun _ _ => rfl
    split at h
    · cases h
      exact ⟨hfault, hfault, hd.link _, _, by rw [Disk.link_self], rfl, rfl⟩
    · cases h
      exact ⟨hfault, hfault, hd.put _, _, by rw [Disk.put_self], rfl, rfl⟩

/-- Writing in place either fails before it changes anything or leaves the file unsynced. -/
theorem write_triple {stop : Stop} {data : List β} :
    Triple (· = d₀) (write fault stop fresh p data) (fun _ => fault = none) fun r d =>
      (∃ e, r = .error e ∧ fault = some e ∧ d = d₀) ∨
        fault = none ∧ Draft p d₀ (fun f => f.synced = false) d := by
  refine Triple.bind create_triple ?_ ?_
  · rintro ⟨⟩
    refine Triple.given fun hfault => ?_
    refine Triple.weaken (writeAll_triple data d₀) ?_ (fun _ _ => hfault) ?_
    · exact fun d hd => hd.imp fun f hf => by simp [hf.1, hf.2]
    · rintro (e | ⟨⟩) d ⟨-, hd⟩
      · exact .inr ⟨hfault, hd⟩
      · exact .inr ⟨hfault, hd.imp fun _ h => h.2⟩
  · rintro e d ⟨hfault, hd⟩
    exact .inl ⟨e, rfl, hfault, hd⟩

/-- The path has a file such as `I` says; a crash can bring back its old one. -/
def Replaced (q : π) (d₀ : Disk π β) (I : File β → Prop) (d : Disk π β) : Prop :=
  ∃ f, I f ∧ d q = ⟨some f, (d₀ q).file :: (d₀ q).past⟩

theorem rename_triple (hpq : p ≠ q) :
    Triple (Draft p d₀ I) (rename fault p q) (Replaced q d₀ I) fun
      | .ok () => fun d => fault = none ∧ Replaced q d₀ I d
      | .error e => fun d => fault = some e ∧ Draft p d₀ I d := by
  refine drafted_triple fun d f hd hf hI => ⟨f, hI, ?_⟩
  rw [Disk.link_of_ne none hpq.symm, Disk.link_self, hd q hpq.symm]

theorem removeFile_triple :
    Triple (Draft p d₀ I) (removeFile fault p) (Apart p d₀) fun _ d =>
      Apart p d₀ d ∧ (fault = none → (d p).file = none) := by
  refine Triple.weaken (drafted_triple (C := fun d => Apart p d₀ d ∧ (d p).file = none)
    fun d f hd _ _ => ⟨hd.link _, by rw [Disk.link_self]⟩) (fun _ h => h) (fun _ h => h.1) ?_
  rintro (e | ⟨⟩) d ⟨hfault, hd⟩
  · exact ⟨hd.1, fun hnone => by simp [hnone] at hfault⟩
  · exact ⟨hd.1, fun _ => hd.2⟩

end

end Files
