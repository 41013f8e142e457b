import Stouter.Files.Basic

/-! # Saving the configuration

`write_atomic` writes a temporary file beside the target, syncs it and renames
it over the target. Every call can fail with any error. The target is read, and
the machine can crash, between any two steps; `Save.Atomic` says what must be
found there.
-/

namespace Stouter

open Crash Files

abbrev Path := List String

namespace Path

def fileName (path : Path) : Option String :=
  path.getLast?.filter fun c => c ≠ ".." ∧ c ≠ "/"

/-- The directory of a path, `.` for a bare file name. -/
def dir (path : Path) : Path := if path.dropLast = [] then ["."] else path.dropLast

/-- `{:016x}` -/
def hex16 (n : UInt64) : String := String.ofList ((Nat.toDigits 16 n.toNat).leftpad 16 '0')

def temporary (target : Path) (random : UInt64) : Path :=
  target.dir ++ ["." ++ target.fileName.getD "" ++ "." ++ hex16 random ++ ".tmp"]

end Path

/-- What the system answers to each call of a save: the path a link leads to, and the errors of the
calls that fail. -/
structure Answers where
  canonicalize : Except ErrorKind Path
  stat : Option ErrorKind
  openWrite : Option ErrorKind
  createNew : Option ErrorKind
  metadata : Option ErrorKind
  setPermissions : Option ErrorKind
  fchown : Option ErrorKind
  writeAll : Stop
  syncAll : Option ErrorKind
  rename : Option ErrorKind
  openDir : Option ErrorKind
  syncDir : Option ErrorKind
  removeFile : Option ErrorKind
  -- The two calls of `fs::write`, and what new files start with.
  create : Option ErrorKind
  write : Stop
  fresh : Metadata

/-- The file a save replaces, past any links. -/
def Answers.target (a : Answers) (path : Path) : Path :=
  match a.canonicalize with
  | .ok target => target
  | .error _ => path

section Source

variable (a : Answers) (tmp target dir : Path) (data : List UInt8)

/-- A rename would replace even a file that may not be written to; those are refused. -/
def checkWritable : Call Path UInt8 Unit := do
  match ← (metadata a.stat target).attempt with
  | .ok _ => Files.openWrite a.openWrite target
  | .error _ => pure ()

def keepMetadata : Call Path UInt8 Unit := do
  match ← (metadata a.metadata target).attempt with
  | .error _ => pure ()
  | .ok old =>
    setPermissions a.setPermissions tmp old.mode
    -- Only root may give a file to someone else; otherwise it is ours anyway.
    let _ ← (fchown a.fchown tmp old.uid old.gid).attempt

/-- The steps of `write_atomic` after the temporary file is created. -/
def writeThenRename : Call Path UInt8 Unit := do
  keepMetadata a tmp target
  writeAll a.writeAll tmp data
  syncAll a.syncAll tmp
  rename a.rename tmp target

/-- Make the rename itself durable; best effort. -/
def syncParent : Call Path UInt8 Unit := do
  match ← (openDir a.openDir).attempt with
  | .error _ => pure ()
  | .ok () => let _ ← (syncDir a.syncDir fun p => p.dir == dir).attempt

def fallsBack : ErrorKind → Bool
  | .resourceBusy | .crossesDevices | .permissionDenied => true
  | _ => false

def writeAtomic (path : Path) (random : UInt64) : Call Path UInt8 Unit := do
  let target := a.target path
  checkWritable a target
  let tmp := target.temporary random
  match ← (createNew a.createNew a.fresh tmp).attempt with
  | .error _ => write a.create a.write a.fresh target data
  | .ok () =>
    match ← (writeThenRename a tmp target data).attempt with
    | .ok () => syncParent a target.dir
    | .error e =>
      let _ ← (removeFile a.removeFile tmp).attempt
      if fallsBack e then write a.create a.write a.fresh target data else Action.fail e

end Source

/-- One call of `write_atomic`, on files that are all on the disk. -/
structure Save where
  files : Path → Option (Metadata × List UInt8)
  path : Path
  random : UInt64
  data : List UInt8
  answers : Answers

namespace Save

variable (s : Save)

def target : Path := s.answers.target s.path

def tmp : Path := s.target.temporary s.random

def disk : Disk Path UInt8 := fun p => Entry.atRest (s.files p)

def previous : Option (List UInt8) := (s.disk s.target).contents

def action : Call Path UInt8 Unit := writeAtomic s.answers s.data s.path s.random

def result : Except ErrorKind Unit := (s.action s.disk).result

def final : Disk Path UInt8 := (s.action s.disk).final

/-- A reader, or a restarted daemon, sees the old contents or the new. -/
def Whole (d : Disk Path UInt8) : Prop :=
  ∀ c, (d s.target).Shows c → c = s.previous ∨ c = some s.data

structure Atomic : Prop where
  whole : ∀ d ∈ s.action.visited s.disk, s.Whole d
  ok : s.result = .ok () → (s.final s.target).contents = some s.data
  error : ∀ e, s.result = .error e → (s.final s.target).contents = s.previous
  clean : ∀ e, s.result = .error e → s.answers.removeFile = none →
    ∀ p, p ≠ s.target → (s.final p).contents = (s.disk p).contents

def openError : Option ErrorKind :=
  if s.answers.stat = none ∧ (s.files s.target).isSome then s.answers.openWrite else none

def createError : Option ErrorKind :=
  s.answers.createNew.or (if (s.files s.tmp).isSome then some .alreadyExists else none)

def permissionsError : Option ErrorKind :=
  if s.answers.metadata = none ∧ (s.files s.target).isSome then s.answers.setPermissions else none

/-- The first error of the steps between creating the temporary file and the rename. -/
def prepareError : Option ErrorKind :=
  s.permissionsError.or ((s.answers.writeAll.error s.data).or s.answers.syncAll)

def notWritable (e : ErrorKind) : Bool := e = .permissionDenied ∨ e = .readOnlyFilesystem

/-- The temporary file cannot be created since the directory is not writable, or the rename cannot
work. -/
def Excused : Prop :=
  s.openError = none ∧ (s.createError.any notWritable ∨
    s.createError = none ∧ s.prepareError = none ∧ s.answers.rename.any fallsBack)

/-- The target is truncated for any other error. -/
def Misdirected : Prop :=
  s.openError = none ∧ s.answers.create = none ∧ (s.createError.any (!notWritable ·) ∨
    s.createError = none ∧ s.prepareError.any fallsBack)

instance : Decidable s.Excused := inferInstanceAs (Decidable (_ ∧ _))

instance : Decidable s.Misdirected := inferInstanceAs (Decidable (_ ∧ _))

def InPlace : Prop :=
  s.openError = none ∧ s.answers.create = none ∧
    (s.createError ≠ none ∨ (s.prepareError.or s.answers.rename).any fallsBack)

variable {s}

theorem file_disk {p : Path} : (s.disk p).file = none ↔ s.files p = none := Option.map_eq_none_iff

theorem not_read {p : Path} {fault : Option ErrorKind}
    (h : fault ≠ none ∨ (s.disk p).file = none) : ¬ (fault = none ∧ (s.files p).isSome) := by
  rintro ⟨hnone, hsome⟩
  rcases h with h | h
  · exact h hnone
  · rw [file_disk.mp h] at hsome
    cases hsome

theorem isSome_files {p : Path} {f : File UInt8} (h : (s.disk p).file = some f) :
    (s.files p).isSome := by
  refine Option.isSome_iff_ne_none.mpr fun hnone => ?_
  rw [file_disk.mpr hnone] at h
  cases h

theorem tmp_ne_target : s.tmp ≠ s.target := by
  intro h
  obtain ⟨name, hname⟩ : ∃ name, "." ++ s.target.fileName.getD "" ++ "." ++
      Path.hex16 s.random ++ ".tmp" = name := ⟨_, rfl⟩
  have hlength := congrArg String.length hname
  simp only [String.length_append] at hlength
  have hlast : s.target.getLast? = some name := by
    rw [← h, tmp, Path.temporary, hname]
    exact List.getLast?_concat
  have hfile : s.target.fileName = some name := by
    rw [Path.fileName, hlast, Option.filter_some, if_pos]
    have hlong : 5 ≤ name.length := by
      have : ".tmp".length = 4 := rfl
      have : ".".length = 1 := rfl
      omega
    refine decide_eq_true ⟨?_, ?_⟩
    · rintro rfl
      exact absurd hlong (by decide)
    · rintro rfl
      exact absurd hlong (by decide)
  rw [hfile, Option.getD_some] at hlength
  have : ".tmp".length = 4 := rfl
  omega

theorem checkWritable_triple :
    Triple (· = s.disk) (checkWritable s.answers s.target) (· = s.disk) fun
      | .ok () => fun d => s.openError = none ∧ d = s.disk
      | .error e => fun d => s.openError = some e ∧ d = s.disk := by
  refine Triple.attempt_bind (metadata_triple fun _ h => h) ?_
  rintro (e | m)
  · refine Triple.pure ?_
    rintro d ⟨hstat, rfl⟩
    exact ⟨if_neg (not_read hstat), rfl⟩
  · refine Triple.given fun hstat => Triple.each ?_
    rintro d ⟨rfl, f, hf, -⟩
    have hopen : s.openError = s.answers.openWrite := if_pos ⟨hstat, isSome_files hf⟩
    rw [hopen]
    refine openWrite_triple (fun _ h => h) ?_
    rintro d rfl
    simp [hf]

theorem keepMetadata_triple {I : File UInt8 → Prop}
    (hI : ∀ f m, I f → I { f with metadata := m }) :
    Triple (Draft s.tmp s.disk I) (keepMetadata s.answers s.tmp s.target) (Apart s.tmp s.disk) fun
      | .ok () => fun d => s.permissionsError = none ∧ Draft s.tmp s.disk I d
      | .error e => fun d => s.permissionsError = some e ∧ Draft s.tmp s.disk I d := by
  have hfile : ∀ d, Draft s.tmp s.disk I d → (d s.target).file = (s.disk s.target).file :=
    fun d hd => by rw [hd.1 s.target tmp_ne_target.symm]
  refine Triple.attempt_bind (metadata_triple fun d hd => hd.1) ?_
  rintro (e | m)
  · refine Triple.pure ?_
    rintro d ⟨hmeta, hd⟩
    rw [hfile d hd] at hmeta
    exact ⟨if_neg (not_read hmeta), hd⟩
  · refine Triple.given fun hmeta => Triple.each ?_
    rintro d₁ ⟨hd₁, f, hf, -⟩
    have hperm : s.permissionsError = s.answers.setPermissions := by
      rw [hfile d₁ hd₁] at hf
      exact if_pos ⟨hmeta, isSome_files hf⟩
    rw [hperm]
    refine Triple.weaken (P := Draft s.tmp s.disk I) ?_ (by rintro d rfl; exact hd₁)
      (fun _ h => h) (fun _ _ h => h)
    refine Triple.bind (onFile_triple fun f hf => hI f _ hf) ?_ fun _ _ h => h
    rintro ⟨⟩
    refine Triple.given fun hok => ?_
    -- Giving the file to its owner may fail.
    refine Triple.attempt_bind (onFile_triple fun f hf => hI f _ hf) ?_
    rintro (e | ⟨⟩)
    · exact Triple.pure fun d hd => ⟨hok, hd.2⟩
    · exact Triple.pure fun d hd => ⟨hok, hd.2⟩

def Complete (s : Save) (f : File UInt8) : Prop := f.bytes = s.data ∧ f.synced = true

/-- The temporary file is whole and synced before it takes the place of the target. -/
theorem writeThenRename_triple :
    Triple (Draft s.tmp s.disk fun f => f.bytes = [] ∧ f.synced = false)
      (writeThenRename s.answers s.tmp s.target s.data)
      (fun d => Apart s.tmp s.disk d ∨ Replaced s.target s.disk s.Complete d) fun
      | .ok () => fun d => s.prepareError.or s.answers.rename = none ∧
          Replaced s.target s.disk s.Complete d
      | .error e => fun d => s.prepareError.or s.answers.rename = some e ∧
          Draft s.tmp s.disk (fun _ => True) d := by
  unfold prepareError
  -- The error is that of the first step that fails: a step that succeeds drops out of the `or`.
  refine Triple.bind (Triple.mono (keepMetadata_triple fun _ _ h => h) fun _ => .inl) ?_ ?_
  · rintro ⟨⟩
    refine Triple.given fun hperm => ?_
    rw [hperm, Option.none_or]
    refine Triple.bind (Triple.weaken (writeAll_triple s.data s.disk) ?_ (fun _ => .inl)
      fun _ _ h => h) ?_ ?_
    · exact fun d hd => hd.imp fun f hf => by simp [hf.1, hf.2]
    · rintro ⟨⟩
      refine Triple.given fun hwrite => ?_
      rw [hwrite, Option.none_or]
      refine Triple.bind (Triple.mono (onFile_triple (J := s.Complete) fun f hf => ⟨hf.1, rfl⟩)
        fun _ => .inl) ?_ ?_
      · rintro ⟨⟩
        refine Triple.given fun hsync => ?_
        rw [hsync, Option.none_or]
        refine Triple.weaken (rename_triple tmp_ne_target) (fun _ h => h) (fun _ => .inr) ?_
        rintro (e | ⟨⟩) d ⟨hrename, hd⟩
        · exact ⟨hrename, hd.imp fun _ _ => trivial⟩
        · exact ⟨hrename, hd⟩
      · rintro e d ⟨hsync, hd⟩
        exact ⟨by rw [hsync]; rfl, hd.imp fun _ _ => trivial⟩
    · rintro e d ⟨hwrite, hd⟩
      exact ⟨by rw [hwrite]; rfl, hd.imp fun _ _ => trivial⟩
  · rintro e d ⟨hperm, hd⟩
    exact ⟨by rw [hperm]; rfl, hd.imp fun _ _ => trivial⟩

theorem Whole.of_apart {d : Disk Path UInt8} (h : Apart s.tmp s.disk d) : s.Whole d := by
  intro c hc
  rw [h s.target tmp_ne_target.symm] at hc
  exact .inl (Entry.atRest_shows.mp hc)

theorem Whole.of_replaced {d : Disk Path UInt8} (h : Replaced s.target s.disk s.Complete d) :
    s.Whole d := by
  obtain ⟨f, ⟨hbytes, hsynced⟩, hd⟩ := h
  intro c hc
  rw [hd] at hc
  rcases hc with hc | ⟨g, hg, hc⟩
  · exact .inr (hc.symm.trans (congrArg some hbytes))
  · rcases List.mem_cons.mp hg with rfl | hg
    · obtain ⟨bytes, rfl, hb⟩ := hc
      exact .inr (by rw [hb hsynced, hbytes])
    · exact .inl (Entry.atRest_shows.mp (.inr ⟨g, hg, hc⟩))

/-- How a save that is not made in place ends. -/
def Ends (s : Save) (r : Except ErrorKind Unit) (d : Disk Path UInt8) : Prop :=
  s.Whole d ∧ match r with
    | .ok () => (d s.target).contents = some s.data
    | .error _ => (d s.target).contents = s.previous ∧
        (s.answers.removeFile = none → ∀ p, p ≠ s.target → (d p).contents = (s.disk p).contents)

theorem Ends.sync {d : Disk Path UInt8} {dir : Path → Bool} (h : s.Ends (.ok ()) d) :
    s.Ends (.ok ()) fun p => if dir p then { d p with past := [] } else d p := by
  obtain ⟨hwhole, hdata⟩ := h
  cases hdir : dir s.target with
  | false => exact ⟨fun c hc => hwhole c (by simpa [hdir] using hc), by simpa [hdir] using hdata⟩
  | true =>
    refine ⟨fun c hc => hwhole c (Entry.Shows.of_sync ?_), ?_⟩
    · simpa [hdir] using hc
    · simpa [hdir, Entry.contents] using hdata

theorem syncParent_triple {dir : Path} :
    Triple (s.Ends (.ok ())) (syncParent s.answers dir) s.Whole s.Ends := by
  refine Triple.attempt_bind (openDir_triple fun d hd => hd.1) ?_
  rintro (e | ⟨⟩)
  · exact Triple.pure fun d hd => hd
  · refine Triple.attempt_bind (syncDir_triple (fun d hd => hd.sync) fun d hd => hd.1) ?_
    exact fun _ => Triple.pure fun d hd => hd

theorem Ends.of_error {d : Disk Path UInt8} {e : ErrorKind} (h : Apart s.tmp s.disk d)
    (hclean : s.answers.removeFile = none → (d s.tmp).contents = (s.disk s.tmp).contents) :
    s.Ends (.error e) d := by
  refine ⟨.of_apart h, by rw [h s.target tmp_ne_target.symm, previous], fun hremove p _ => ?_⟩
  by_cases hp : p = s.tmp
  · rw [hp, hclean hremove]
  · rw [h p hp]

/-- A save made in place leaves the target unsynced, any other ends as it must. -/
def Finishes (s : Save) (r : Except ErrorKind Unit) (d : Disk Path UInt8) : Prop :=
  (s.InPlace ∧ ∃ f, (d s.target).file = some f ∧ f.synced = false) ∨ ¬ s.InPlace ∧ s.Ends r d

/-- Where the save would write in place, all that saves the target is that it cannot be opened. -/
theorem write_finishes {d : Disk Path UInt8} (hd : ∀ e, s.Ends (.error e) d)
    (hin : s.answers.create = none ↔ s.InPlace) :
    Triple (· = d) (write s.answers.create s.answers.write s.answers.fresh s.target s.data)
      (fun d => s.InPlace ∨ s.Whole d) s.Finishes := by
  refine write_triple.weaken (fun _ h => h) (fun _ h => .inl (hin.mp h)) ?_
  rintro r d' (⟨e, rfl, hfault, rfl⟩ | ⟨hfault, -, hf⟩)
  · refine .inr ⟨fun h => ?_, hd e⟩
    rw [hin.mpr h] at hfault
    cases hfault
  · exact .inl ⟨hin.mp hfault, hf⟩

theorem createError_eq_none :
    s.createError = none ↔ s.answers.createNew = none ∧ (s.disk s.tmp).file = none := by
  rw [createError, Option.or_eq_none_iff, file_disk]
  cases s.files s.tmp <;> simp

theorem finishes_of_created (hopen : s.openError = none) (hcreate : s.createError = none)
    (htmp : (s.disk s.tmp).file = none) {r : Except ErrorKind Unit} :
    Triple
      (match r with
        | .ok () => fun d => s.prepareError.or s.answers.rename = none ∧
            Replaced s.target s.disk s.Complete d
        | .error e => fun d => s.prepareError.or s.answers.rename = some e ∧
            Draft s.tmp s.disk (fun _ => True) d)
      (match r with
        | .ok () => syncParent s.answers s.target.dir
        | .error e => do
          let _ ← (removeFile s.answers.removeFile s.tmp).attempt
          if fallsBack e then write s.answers.create s.answers.write s.answers.fresh s.target s.data
          else Action.fail e)
      (fun d => s.InPlace ∨ s.Whole d) s.Finishes := by
  have hin : ∀ r, s.prepareError.or s.answers.rename = r →
      (s.InPlace ↔ s.answers.create = none ∧ r.any fallsBack) := by
    rintro r rfl
    simp [InPlace, hopen, hcreate]
  rcases r with e | ⟨⟩
  · refine Triple.given fun hfail => ?_
    refine Triple.attempt_bind (Triple.mono removeFile_triple fun _ h => .inr (.of_apart h))
      fun _ => Triple.each ?_
    rintro d ⟨hd, hremoved⟩
    have hends : ∀ e, s.Ends (.error e) d := fun e =>
      .of_error hd fun hremove => by simp only [Entry.contents, hremoved hremove, htmp]
    split
    · next he => exact write_finishes hends (by simp [hin _ hfail, he])
    · next he =>
      refine Triple.fail ?_
      rintro _ rfl
      exact .inr ⟨by simp [hin _ hfail, he], hends e⟩
  · refine Triple.given fun hfail => ?_
    refine Triple.weaken syncParent_triple ?_ (fun _ => .inr) ?_
    · intro d hd
      refine ⟨.of_replaced hd, ?_⟩
      obtain ⟨f, ⟨hbytes, -⟩, hd⟩ := hd
      simp [hd, Entry.contents, hbytes]
    · exact fun r d hd => .inr ⟨by simp [hin _ hfail], hd⟩

theorem action_triple :
    Triple (· = s.disk) s.action (fun d => s.InPlace ∨ s.Whole d) s.Finishes := by
  have hdisk : Apart s.tmp s.disk s.disk := fun _ _ => rfl
  have hends : ∀ e, s.Ends (.error e) s.disk := fun e => .of_error hdisk fun _ => rfl
  refine Triple.bind (Triple.mono checkWritable_triple ?_) ?_ ?_
  · rintro d rfl
    exact .inr (.of_apart hdisk)
  · rintro ⟨⟩
    refine Triple.given fun hopen => ?_
    refine Triple.attempt_bind (Triple.mono createNew_triple fun _ h => .inr (.of_apart h)) ?_
    rintro (e | ⟨⟩)
    · refine Triple.given fun hcreate => write_finishes hends ?_
      have hne : s.createError ≠ none := by
        rw [Ne, createError_eq_none]
        exact not_and_or.mpr hcreate
      simp [InPlace, hopen, hne]
    · refine Triple.given fun hcreate => ?_
      refine Triple.attempt_bind (Triple.mono writeThenRename_triple ?_) fun r =>
        finishes_of_created hopen (createError_eq_none.mpr hcreate) hcreate.2
      rintro d (hd | hd)
      · exact .inr (.of_apart hd)
      · exact .inr (.of_replaced hd)
  · rintro e d ⟨hopen, rfl⟩
    refine .inr ⟨fun h => ?_, hends e⟩
    rw [h.1] at hopen
    cases hopen

theorem atomic_iff_not_inPlace : s.Atomic ↔ ¬ s.InPlace := by
  obtain ⟨hmoments, hfinal⟩ := action_triple s.disk rfl
  constructor
  · intro h hin
    obtain ⟨-, f, hf, hsynced⟩ | ⟨hnot, -⟩ := hfinal
    · -- Longer than both the old contents and the new.
      have hshows := Entry.shows_of_not_synced hf hsynced (0 :: (s.previous.getD [] ++ s.data))
      rcases h.whole _ (by simp [Action.visited]) _ hshows with hc | hc
      · have := congrArg (fun c => (c.getD []).length) hc
        simp at this
        omega
      · have := congrArg (fun c => (c.getD []).length) hc
        simp at this
        omega
    · exact hnot hin
  · intro hnot
    obtain ⟨hin, -⟩ | ⟨-, hwhole, hend⟩ := hfinal
    · exact absurd hin hnot
    · refine ⟨?_, ?_, ?_, ?_⟩
      · intro d hd
        simp only [Action.visited, List.cons_append, List.mem_cons, List.mem_append,
          List.not_mem_nil, or_false] at hd
        rcases hd with rfl | hd | rfl
        · exact .of_apart fun _ _ => rfl
        · exact (hmoments d hd).resolve_left hnot
        · exact hwhole
      · intro hr
        simp only [result] at hr
        rw [hr] at hend
        exact hend
      · intro e hr
        simp only [result] at hr
        rw [hr] at hend
        exact hend.1
      · intro e hr
        simp only [result] at hr
        rw [hr] at hend
        exact hend.2

theorem inPlace_iff_misdirected (h : ¬ s.Excused) : s.InPlace ↔ s.Misdirected := by
  refine and_congr_right fun hopen => and_congr_right fun _ => ?_
  have hrest : ¬ (s.createError.any notWritable ∨
      s.createError = none ∧ s.prepareError = none ∧ s.answers.rename.any fallsBack) :=
    fun hex => h ⟨hopen, hex⟩
  cases htmp : s.createError with
  | some e => simpa [htmp] using hrest
  | none =>
    cases hprepare : s.prepareError with
    | some e => simp
    | none => simpa [htmp, hprepare] using hrest

/-- A save is atomic unless the target is truncated for an error that is neither of a directory that
is not writable nor of a rename that cannot work. -/
theorem atomic_iff (h : ¬ s.Excused) : s.Atomic ↔ ¬ s.Misdirected := by
  rw [atomic_iff_not_inPlace, inPlace_iff_misdirected h]

end Save

def allWell : Answers where
  canonicalize := .ok ["/", "etc", "stouter.json"]
  stat := none
  openWrite := none
  createNew := none
  metadata := none
  setPermissions := none
  fchown := none
  writeAll := none
  syncAll := none
  rename := none
  openDir := none
  syncDir := none
  removeFile := none
  create := none
  write := none
  fresh := ⟨420, 0, 0⟩

/-- A save of three bytes over two. -/
def saved (answers : Answers) : Save where
  files p := if p = ["/", "etc", "stouter.json"] then some (⟨384, 0, 0⟩, [123, 125]) else none
  path := ["stouter.json"]
  random := 7
  data := [123, 10, 125]
  answers := answers

/-- The disk is full: there is no room for a temporary file, and little for the bytes. -/
def fullDisk : Save :=
  saved { allWell with createNew := some .storageFull, write := some (1, .storageFull) }

theorem fullDisk_truncated :
    ¬ fullDisk.Excused ∧ fullDisk.result = .error .storageFull ∧
      (fullDisk.final fullDisk.target).contents = some [123] ∧ ¬ fullDisk.Atomic := by
  have hresult : fullDisk.result = .error .storageFull := rfl
  refine ⟨by decide, hresult, rfl, fun h => ?_⟩
  exact absurd (h.error _ hresult) (by decide)

/-- The disk fills up while the temporary file is written. -/
def fullLater : Save := saved { allWell with writeAll := some (2, .storageFull) }

theorem fullLater_atomic : ¬ fullLater.Excused ∧ fullLater.Atomic :=
  ⟨by decide, (Save.atomic_iff (by decide)).mpr (by decide)⟩

end Stouter
