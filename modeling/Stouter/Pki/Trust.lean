import Mathlib.Data.List.Nodup
import Mathlib.Logic.Function.Basic
import Stouter.Lists.Basic
import Stouter.Transition.Basic

/-! # Trust in the mesh

`load_or_create` gives a daemon its certificates from the four files of its TLS
directory, and makes an authority of its own if there are none; `cert issue`
writes a directory for another node. Files are written one after the other, and
a process can stop at any time in between. Keys and certificates are those of a
library that is only known by its laws.
-/

namespace Stouter

variable {κ χ : Type}

/-- What is used of the certificate library: a certificate for a key by itself, one for a common
name and a key by an authority's key, whether a certificate is accepted under another one, and the
common name. -/
structure CertLib (κ χ : Type) where
  selfSigned : κ → χ
  signedBy : String → κ → κ → χ
  verifies : χ → χ → Bool
  commonName : χ → Option String

/-- Signatures are checked with the key they were made with. -/
structure CertLib.Lawful (lib : CertLib κ χ) : Prop where
  verifies_signedBy : ∀ ca ca' cn key,
    lib.verifies (lib.selfSigned ca) (lib.signedBy cn key ca') = true ↔ ca = ca'
  commonName_signedBy : ∀ cn key ca, lib.commonName (lib.signedBy cn key ca) = some cn

/-- A file that was opened and may have been written; `ownerOnly` is mode `0600`. -/
structure PemFile (α : Type) where
  content : Option α
  ownerOnly : Bool
  deriving DecidableEq, Repr

structure TlsDir (κ χ : Type) where
  caCrt : Option (PemFile χ)
  caKey : Option (PemFile κ)
  nodeCrt : Option (PemFile χ)
  nodeKey : Option (PemFile κ)
  deriving DecidableEq, Repr

structure PkiMaterial (κ χ : Type) where
  caCert : χ
  nodeCert : χ
  nodeKey : κ

/-! ## Files -/

/-- What is found in a file, if there is one and it was written. -/
def PemFile.read {α : Type} (f : Option (PemFile α)) : Option α := f.bind PemFile.content

/-- Open a file for writing, with the mode it is created with. An existing file keeps its own. -/
def PemFile.truncate {α : Type} (ownerOnly : Bool) (f : Option (PemFile α)) : PemFile α :=
  ⟨none, (f.map PemFile.ownerOnly).getD ownerOnly⟩

def PemFile.fill {α : Type} (content : α) (f : PemFile α) : PemFile α :=
  { f with content := some content }

inductive DirWrite (κ χ : Type)
  | openCaCrt
  | fillCaCrt (cert : χ)
  | openCaKey
  | chmodCaKey
  | fillCaKey (key : κ)
  | openNodeCrt
  | fillNodeCrt (cert : χ)
  | openNodeKey
  | chmodNodeKey
  | fillNodeKey (key : κ)

namespace TlsDir

def empty : TlsDir κ χ := ⟨none, none, none, none⟩

def write (d : TlsDir κ χ) : DirWrite κ χ → TlsDir κ χ
  | .openCaCrt => { d with caCrt := some (PemFile.truncate false d.caCrt) }
  | .fillCaCrt cert => { d with caCrt := d.caCrt.map (PemFile.fill cert) }
  | .openCaKey => { d with caKey := some (PemFile.truncate true d.caKey) }
  | .chmodCaKey => { d with caKey := d.caKey.map fun f => { f with ownerOnly := true } }
  | .fillCaKey key => { d with caKey := d.caKey.map (PemFile.fill key) }
  | .openNodeCrt => { d with nodeCrt := some (PemFile.truncate false d.nodeCrt) }
  | .fillNodeCrt cert => { d with nodeCrt := d.nodeCrt.map (PemFile.fill cert) }
  | .openNodeKey => { d with nodeKey := some (PemFile.truncate true d.nodeKey) }
  | .chmodNodeKey => { d with nodeKey := d.nodeKey.map fun f => { f with ownerOnly := true } }
  | .fillNodeKey key => { d with nodeKey := d.nodeKey.map (PemFile.fill key) }

/-- `load_ca`: the certificate and the key of the authority, if both can be read. -/
def loadCa (d : TlsDir κ χ) : Option (χ × κ) := do
  let cert ← PemFile.read d.caCrt
  let key ← PemFile.read d.caKey
  return (cert, key)

def loadIssued (d : TlsDir κ χ) : Option (PkiMaterial κ χ) := do
  let caCert ← PemFile.read d.caCrt
  let nodeCert ← PemFile.read d.nodeCrt
  let nodeKey ← PemFile.read d.nodeKey
  return { caCert, nodeCert, nodeKey }

end TlsDir

def generateCa (lib : CertLib κ χ) (key : κ) : List (DirWrite κ χ) :=
  [.openCaCrt, .fillCaCrt (lib.selfSigned key), .openCaKey, .chmodCaKey, .fillCaKey key]

/-- How `load_or_create` goes on: with what it has, not at all, or with files to write first. -/
inductive Loaded (κ χ : Type)
  | ready (material : PkiMaterial κ χ)
  | failed
  | create (writes : List (DirWrite κ χ)) (material : PkiMaterial κ χ)

/-- With the keys it generates if it needs them. -/
def loadOrCreate (lib : CertLib κ χ) (d : TlsDir κ χ) (nodeId : String) (caKey nodeKey : κ) :
    Loaded κ χ :=
  if d.caCrt.isSome && d.caKey.isSome then
    match d.loadCa with
    | some (cert, key) => .ready ⟨cert, lib.signedBy nodeId nodeKey key, nodeKey⟩
    | none => .failed
  else if d.caCrt.isSome && d.nodeCrt.isSome && d.nodeKey.isSome then
    match d.loadIssued with
    | some material => .ready material
    | none => .failed
  else .create (generateCa lib caKey)
    ⟨lib.selfSigned caKey, lib.signedBy nodeId nodeKey caKey, nodeKey⟩

/-- The writes of `issue_cert_to_dir` for the authority it has loaded. -/
def issueCertToDir (lib : CertLib κ χ) (ca : χ × κ) (nodeId : String) (key : κ) :
    List (DirWrite κ χ) :=
  [.openCaCrt, .fillCaCrt ca.1, .openNodeCrt, .fillNodeCrt (lib.signedBy nodeId key ca.2),
    .openNodeKey, .chmodNodeKey, .fillNodeKey key]

/-! ## Many directories -/

/-- A daemon that has read its material from a directory. -/
structure TlsDaemon (κ χ : Type) where
  dir : String
  material : PkiMaterial κ χ

/-- A process that writes to a directory; a daemon starts when it is done. -/
structure DirJob (κ χ : Type) where
  dir : String
  writes : List (DirWrite κ χ)
  starts : Option (PkiMaterial κ χ)

/-- `homes` has the directory that the key of each authority was generated for, and `signed` the
certificates of nodes, each with the authority's key and the common name. -/
structure Mesh (κ χ : Type) where
  dirs : String → TlsDir κ χ
  jobs : List (DirJob κ χ)
  daemons : List (TlsDaemon κ χ)
  homes : List (κ × String)
  signed : List (κ × String × χ)

inductive MeshAct (κ : Type)
  | start (dir nodeId : String) (caKey nodeKey : κ)
  | issue (dir nodeId out : String) (key : κ)
  | write (i : ℕ)
  | finish (i : ℕ)
  | die (i : ℕ)
  | stop (i : ℕ)

namespace Mesh

variable (lib : CertLib κ χ) [DecidableEq κ]

def launch (s : Mesh κ χ) (dir : String) (material : PkiMaterial κ χ) : Mesh κ χ :=
  { s with daemons := s.daemons ++ [⟨dir, material⟩] }

def next (s : Mesh κ χ) : MeshAct κ → Option (Mesh κ χ)
  | .start dir nodeId caKey nodeKey =>
    if caKey ∈ s.homes.map Prod.fst then none
    else
      match loadOrCreate lib (s.dirs dir) nodeId caKey nodeKey with
      | .failed => some s
      | .ready material =>
        let signed := (s.dirs dir).loadCa.toList.map fun ca => (ca.2, nodeId, material.nodeCert)
        some ({ s with signed := signed ++ s.signed }.launch dir material)
      | .create writes material => some { s with
          jobs := s.jobs ++ [⟨dir, writes, some material⟩]
          homes := (caKey, dir) :: s.homes
          signed := (caKey, nodeId, material.nodeCert) :: s.signed }
  | .issue dir nodeId out key =>
    (s.dirs dir).loadCa.map fun ca => { s with
      jobs := s.jobs ++ [⟨out, issueCertToDir lib ca nodeId key, none⟩]
      signed := (ca.2, nodeId, lib.signedBy nodeId key ca.2) :: s.signed }
  | .write i =>
    match s.jobs[i]? with
    | some ⟨dir, w :: writes, starts⟩ => some { s with
        dirs := Function.update s.dirs dir ((s.dirs dir).write w)
        jobs := s.jobs.set i ⟨dir, writes, starts⟩ }
    | _ => none
  | .finish i =>
    match s.jobs[i]? with
    | some ⟨_, [], none⟩ => some { s with jobs := s.jobs.eraseIdx i }
    | some ⟨dir, [], some material⟩ =>
      some ({ s with jobs := s.jobs.eraseIdx i }.launch dir material)
    | _ => none
  | .die i => if i < s.jobs.length then some { s with jobs := s.jobs.eraseIdx i } else none
  | .stop i =>
    if i < s.daemons.length then some { s with daemons := s.daemons.eraseIdx i } else none

def start : Mesh κ χ := ⟨fun _ => .empty, [], [], [], []⟩

/-- One process at a time writes to a directory, and certificates are issued to an empty one. -/
def Alone (s : Mesh κ χ) : MeshAct κ → Prop
  | .start dir _ _ _ => ∀ j ∈ s.jobs, j.dir ≠ dir
  | .issue _ _ out _ => (∀ j ∈ s.jobs, j.dir ≠ out) ∧ s.dirs out = .empty
  | _ => True

instance [DecidableEq χ] (s : Mesh κ χ) : ∀ a, Decidable (s.Alone a)
  | .start dir _ _ _ => inferInstanceAs (Decidable (∀ j ∈ s.jobs, j.dir ≠ dir))
  | .issue _ _ out _ =>
    inferInstanceAs (Decidable ((∀ j ∈ s.jobs, j.dir ≠ out) ∧ s.dirs out = .empty))
  | .write _ | .finish _ | .die _ | .stop _ => inferInstanceAs (Decidable True)

def system : Transition (Mesh κ χ) (MeshAct κ) :=
  (Transition.ofNext (· = start) (next lib)).restrict fun s a _ => s.Alone a

end Mesh

/-! ## What is in a directory -/

section Dirs

variable {lib : CertLib κ χ} {signed more : List (κ × String × χ)} {d : TlsDir κ χ}

def PkiMaterial.Signed (lib : CertLib κ χ) (signed : List (κ × String × χ))
    (m : PkiMaterial κ χ) : Prop :=
  ∃ ca cn, m = ⟨lib.selfSigned ca, lib.signedBy cn m.nodeKey ca, m.nodeKey⟩ ∧
    (ca, cn, m.nodeCert) ∈ signed

/-- A directory with the key of an authority has its certificate, and one with the key of a node
what was issued with it; no directory has both. Keys are only written to files that nobody else
can read. -/
structure TlsDir.Ok (lib : CertLib κ χ) (signed : List (κ × String × χ)) (d : TlsDir κ χ) :
    Prop where
  ca : d.caKey.isSome = true → d.nodeKey = none ∧ ∃ k,
    PemFile.read d.caCrt = some (lib.selfSigned k) ∧ ∀ k', PemFile.read d.caKey = some k' → k' = k
  node : d.nodeKey.isSome = true → d.caKey = none ∧ ∃ m : PkiMaterial κ χ, m.Signed lib signed ∧
    PemFile.read d.caCrt = some m.caCert ∧ PemFile.read d.nodeCrt = some m.nodeCert ∧
    ∀ k, PemFile.read d.nodeKey = some k → k = m.nodeKey
  secret : ∀ f, d.caKey = some f ∨ d.nodeKey = some f → f.content.isSome = true →
    f.ownerOnly = true

/-- A daemon can start from the files. -/
def TlsDir.Complete (d : TlsDir κ χ) : Prop :=
  (PemFile.read d.caKey).isSome = true ∨
    (PemFile.read d.nodeCrt).isSome = true ∧ (PemFile.read d.nodeKey).isSome = true

/-- The directory is as it should be at every moment of the writes. -/
def TlsDir.Safe (lib : CertLib κ χ) (signed : List (κ × String × χ)) :
    TlsDir κ χ → List (DirWrite κ χ) → Prop
  | d, [] => d.Ok lib signed
  | d, w :: writes => d.Ok lib signed ∧ Safe lib signed (d.write w) writes

theorem PkiMaterial.Signed.mono {m : PkiMaterial κ χ} (h : m.Signed lib signed)
    (hsub : signed ⊆ more) : m.Signed lib more := by
  obtain ⟨ca, cn, hm, hmem⟩ := h
  exact ⟨ca, cn, hm, hsub hmem⟩

theorem TlsDir.Ok.mono (h : d.Ok lib signed) (hsub : signed ⊆ more) : d.Ok lib more := by
  refine { h with node := fun hkey => ?_ }
  obtain ⟨hca, m, hm, hrest⟩ := h.node hkey
  exact ⟨hca, m, hm.mono hsub, hrest⟩

theorem TlsDir.Safe.mono {writes : List (DirWrite κ χ)} (h : d.Safe lib signed writes)
    (hsub : signed ⊆ more) : d.Safe lib more writes := by
  induction writes generalizing d with
  | nil => exact TlsDir.Ok.mono h hsub
  | cons w writes ih => exact ⟨h.1.mono hsub, ih h.2⟩

theorem TlsDir.Safe.ok {writes : List (DirWrite κ χ)} (h : d.Safe lib signed writes) :
    d.Ok lib signed := by
  cases writes with
  | nil => exact h
  | cons w writes => exact h.1

theorem TlsDir.ok_of_none (hca : d.caKey = none) (hnode : d.nodeKey = none) : d.Ok lib signed := by
  refine ⟨?_, ?_, ?_⟩ <;> simp [hca, hnode]

/-- A process that makes an authority writes its certificate first. -/
theorem safe_generateCa {k : κ} (hca : d.caKey = none) (hnode : d.nodeKey = none) :
    d.Safe lib signed (generateCa lib k) := by
  obtain ⟨caCrt, caKey, nodeCrt, nodeKey⟩ := d
  obtain rfl : caKey = none := hca
  obtain rfl : nodeKey = none := hnode
  refine ⟨TlsDir.ok_of_none rfl rfl, TlsDir.ok_of_none rfl rfl, TlsDir.ok_of_none rfl rfl, ?_⟩
  refine ⟨⟨?_, ?_, ?_⟩, ⟨?_, ?_, ?_⟩, ⟨?_, ?_, ?_⟩⟩ <;>
    simp [TlsDir.write, PemFile.truncate, PemFile.fill, PemFile.read]

/-- A process that issues writes the key last. -/
theorem safe_issueCertToDir {ca key : κ} {nodeId : String}
    (hsigned : (ca, nodeId, lib.signedBy nodeId key ca) ∈ signed) :
    (TlsDir.empty : TlsDir κ χ).Safe lib signed
      (issueCertToDir lib (lib.selfSigned ca, ca) nodeId key) := by
  have hm : PkiMaterial.Signed lib signed
      ⟨lib.selfSigned ca, lib.signedBy nodeId key ca, key⟩ := ⟨ca, nodeId, rfl, hsigned⟩
  refine ⟨TlsDir.ok_of_none rfl rfl, TlsDir.ok_of_none rfl rfl, TlsDir.ok_of_none rfl rfl,
    TlsDir.ok_of_none rfl rfl, TlsDir.ok_of_none rfl rfl, ?_⟩
  refine ⟨⟨?_, fun _ => ⟨rfl, _, hm, rfl, rfl, ?_⟩, ?_⟩,
    ⟨?_, fun _ => ⟨rfl, _, hm, rfl, rfl, ?_⟩, ?_⟩,
    ⟨?_, fun _ => ⟨rfl, _, hm, rfl, rfl, ?_⟩, ?_⟩⟩ <;>
    simp [TlsDir.empty, TlsDir.write, PemFile.truncate, PemFile.fill, PemFile.read]

theorem PemFile.isSome_of_read {α : Type} {f : Option (PemFile α)} {a : α}
    (h : PemFile.read f = some a) : f.isSome = true := by
  obtain ⟨file, rfl, -⟩ := Option.bind_eq_some_iff.mp h
  rfl

theorem loadCa_eq_some {ca : χ × κ} :
    d.loadCa = some ca ↔ PemFile.read d.caCrt = some ca.1 ∧ PemFile.read d.caKey = some ca.2 := by
  obtain ⟨cert, key⟩ := ca
  simp [TlsDir.loadCa, Option.bind_eq_some_iff]

theorem TlsDir.Ok.loadCa {ca : χ × κ} (h : d.Ok lib signed) (hload : d.loadCa = some ca) :
    ca.1 = lib.selfSigned ca.2 := by
  obtain ⟨hcrt, hkey⟩ := loadCa_eq_some.mp hload
  obtain ⟨-, k, hk, hsame⟩ := h.ca (PemFile.isSome_of_read hkey)
  obtain rfl := hsame _ hkey
  exact Option.some.inj (hcrt.symm.trans hk)

theorem TlsDir.Ok.loadIssued {m : PkiMaterial κ χ} (h : d.Ok lib signed)
    (hload : d.loadIssued = some m) :
    m.Signed lib signed ∧ PemFile.read d.caCrt = some m.caCert := by
  simp only [TlsDir.loadIssued, Option.bind_eq_bind, Option.bind_eq_some_iff] at hload
  obtain ⟨caCert, hca, nodeCert, hcrt, nodeKey, hkey, hm⟩ := hload
  obtain rfl := Option.some.inj hm
  obtain ⟨-, ⟨ca, crt, key⟩, hsigned, hca', hcrt', hsame⟩ :=
    h.node (PemFile.isSome_of_read hkey)
  obtain rfl := hsame _ hkey
  obtain rfl := Option.some.inj (hca.symm.trans hca')
  obtain rfl := Option.some.inj (hcrt.symm.trans hcrt')
  exact ⟨hsigned, hca⟩

theorem loadOrCreate_cases (h : d.Ok lib signed) (nodeId : String) (caKey nodeKey : κ) :
    loadOrCreate lib d nodeId caKey nodeKey = .failed ∨
    (∃ ca, d.loadCa = some ca ∧ loadOrCreate lib d nodeId caKey nodeKey =
      .ready ⟨ca.1, lib.signedBy nodeId nodeKey ca.2, nodeKey⟩) ∨
    (∃ m, d.loadCa = none ∧ d.loadIssued = some m ∧
      loadOrCreate lib d nodeId caKey nodeKey = .ready m) ∨
    d.caKey = none ∧ d.nodeKey = none ∧ loadOrCreate lib d nodeId caKey nodeKey =
      .create (generateCa lib caKey)
        ⟨lib.selfSigned caKey, lib.signedBy nodeId nodeKey caKey, nodeKey⟩ := by
  unfold loadOrCreate
  split_ifs with hca hissued
  · cases hload : d.loadCa with
    | none => exact .inl rfl
    | some ca => exact .inr (.inl ⟨ca, rfl, rfl⟩)
  · have hnone : d.loadCa = none := by
      refine Option.eq_none_iff_forall_ne_some.mpr fun ca hload => hca ?_
      obtain ⟨hcrt, hkey⟩ := loadCa_eq_some.mp hload
      rw [PemFile.isSome_of_read hcrt, PemFile.isSome_of_read hkey]
      rfl
    cases hload : d.loadIssued with
    | none => exact .inl rfl
    | some m => exact .inr (.inr (.inl ⟨m, hnone, rfl, rfl⟩))
  · -- A key is only there with the certificates it belongs to.
    refine .inr (.inr (.inr ⟨?_, ?_, rfl⟩))
    · refine Option.not_isSome_iff_eq_none.mp fun hkey => hca ?_
      obtain ⟨-, k, hcrt, -⟩ := h.ca hkey
      rw [PemFile.isSome_of_read hcrt, hkey]
      rfl
    · refine Option.not_isSome_iff_eq_none.mp fun hkey => hissued ?_
      obtain ⟨-, m, -, hca', hcrt, -⟩ := h.node hkey
      rw [PemFile.isSome_of_read hca', PemFile.isSome_of_read hcrt, hkey]
      rfl

/-- From complete files a daemon always starts, with the certificate of the authority in them. -/
theorem TlsDir.Complete.ready {c : χ} (hc : d.Complete) (h : d.Ok lib signed)
    (hcrt : PemFile.read d.caCrt = some c) (nodeId : String) (caKey nodeKey : κ) :
    ∃ m, loadOrCreate lib d nodeId caKey nodeKey = .ready m ∧ m.caCert = c := by
  unfold loadOrCreate
  rcases hc with hkey | ⟨hnode, hkey⟩
  · obtain ⟨k, hk⟩ := Option.isSome_iff_exists.mp hkey
    have hload : d.loadCa = some (c, k) := loadCa_eq_some.mpr ⟨hcrt, hk⟩
    rw [if_pos (by rw [PemFile.isSome_of_read hcrt, PemFile.isSome_of_read hk]; rfl), hload]
    exact ⟨_, rfl, rfl⟩
  · obtain ⟨crt, hcrt'⟩ := Option.isSome_iff_exists.mp hnode
    obtain ⟨k, hk⟩ := Option.isSome_iff_exists.mp hkey
    obtain ⟨hca, -⟩ := h.node (PemFile.isSome_of_read hk)
    have hload : d.loadIssued = some ⟨c, crt, k⟩ := by simp [TlsDir.loadIssued, hcrt, hcrt', hk]
    rw [if_neg (by simp [hca]), if_pos (by rw [PemFile.isSome_of_read hcrt,
      PemFile.isSome_of_read hcrt', PemFile.isSome_of_read hk]; rfl), hload]
    exact ⟨_, rfl, rfl⟩

theorem read_caKey_write {w : DirWrite κ χ} {k : κ}
    (h : PemFile.read (d.write w).caKey = some k) :
    w = .fillCaKey k ∨ PemFile.read d.caKey = some k := by
  obtain ⟨file, hfile, hk⟩ := Option.bind_eq_some_iff.mp h
  cases w with
  | fillCaKey k' =>
    obtain ⟨f, hf, rfl⟩ := Option.map_eq_some_iff.mp hfile
    exact .inl (congrArg _ (Option.some.inj hk))
  | openCaKey =>
    obtain rfl := Option.some.inj hfile
    cases hk
  | chmodCaKey =>
    obtain ⟨f, hf, rfl⟩ := Option.map_eq_some_iff.mp hfile
    exact .inr (Option.bind_eq_some_iff.mpr ⟨f, hf, hk⟩)
  | _ => exact .inr h

end Dirs

/-! ## The mesh -/

namespace Mesh

variable {lib : CertLib κ χ} {s t : Mesh κ χ} {dir : String}

/-- A process that writes leaves its directory as it should be at every moment, and at the end with
what a daemon starts from, if it starts one. -/
structure JobOk (lib : CertLib κ χ) (s : Mesh κ χ) (j : DirJob κ χ) : Prop where
  safe : (s.dirs j.dir).Safe lib s.signed j.writes
  keys : ∀ k, .fillCaKey k ∈ j.writes → (k, j.dir) ∈ s.homes
  starts : ∀ m, j.starts = some m → m.Signed lib s.signed ∧
    PemFile.read (j.writes.foldl TlsDir.write (s.dirs j.dir)).caCrt = some m.caCert ∧
    (j.writes.foldl TlsDir.write (s.dirs j.dir)).Complete

/-- A daemon has material of its authority, and its directory still has it. -/
structure DaemonOk (lib : CertLib κ χ) (s : Mesh κ χ) (x : TlsDaemon κ χ) : Prop where
  signed : x.material.Signed lib s.signed
  caCrt : PemFile.read (s.dirs x.dir).caCrt = some x.material.caCert
  complete : (s.dirs x.dir).Complete

structure Sound (lib : CertLib κ χ) (s : Mesh κ χ) : Prop where
  dirs : ∀ dir, (s.dirs dir).Ok lib s.signed
  jobs : ∀ j ∈ s.jobs, s.JobOk lib j
  apart : (s.jobs.map DirJob.dir).Nodup
  daemons : ∀ x ∈ s.daemons, s.DaemonOk lib x ∧ ∀ j ∈ s.jobs, j.dir ≠ x.dir
  homes : ∀ dir k, PemFile.read (s.dirs dir).caKey = some k → (k, dir) ∈ s.homes
  fresh : (s.homes.map Prod.fst).Nodup
  signed : ∀ e ∈ s.signed, ∃ key, e.2.2 = lib.signedBy e.2.1 key e.1

theorem JobOk.mono {j : DirJob κ χ} (h : s.JobOk lib j) (hdir : t.dirs j.dir = s.dirs j.dir)
    (hsigned : s.signed ⊆ t.signed) (hhomes : s.homes ⊆ t.homes) : t.JobOk lib j := by
  refine ⟨?_, fun k hk => hhomes (h.keys k hk), fun m hm => ?_⟩
  · rw [hdir]
    exact h.safe.mono hsigned
  · obtain ⟨hm, hrest⟩ := h.starts m hm
    rw [hdir]
    exact ⟨hm.mono hsigned, hrest⟩

theorem DaemonOk.mono {x : TlsDaemon κ χ} (h : s.DaemonOk lib x)
    (hdir : t.dirs x.dir = s.dirs x.dir) (hsigned : s.signed ⊆ t.signed) : t.DaemonOk lib x :=
  ⟨h.signed.mono hsigned, hdir ▸ h.caCrt, hdir ▸ h.complete⟩

theorem Sound.sign {e : κ × String × χ} (hs : s.Sound lib)
    (he : ∃ key, e.2.2 = lib.signedBy e.2.1 key e.1) :
    Sound lib { s with signed := e :: s.signed } := by
  have hsub : s.signed ⊆ e :: s.signed := List.subset_cons_self e s.signed
  refine { hs with dirs := ?_, jobs := ?_, daemons := ?_, signed := ?_ }
  · exact fun dir => (hs.dirs dir).mono hsub
  · exact fun j hj => (hs.jobs j hj).mono rfl hsub (List.Subset.refl _)
  · exact fun x hx => ⟨(hs.daemons x hx).1.mono rfl hsub, (hs.daemons x hx).2⟩
  · exact List.forall_mem_cons.mpr ⟨he, hs.signed⟩

theorem Sound.launch {m : PkiMaterial κ χ} (hs : s.Sound lib) (hx : s.DaemonOk lib ⟨dir, m⟩)
    (halone : ∀ j ∈ s.jobs, j.dir ≠ dir) : (s.launch dir m).Sound lib := by
  refine { hs with jobs := ?_, daemons := ?_ }
  · exact fun j hj => (hs.jobs j hj).mono rfl (List.Subset.refl _) (List.Subset.refl _)
  · intro x hmem
    rcases List.mem_append.mp hmem with hmem | hmem
    · obtain ⟨hok, hapart⟩ := hs.daemons x hmem
      exact ⟨hok.mono rfl (List.Subset.refl _), hapart⟩
    · obtain rfl := List.mem_singleton.mp hmem
      exact ⟨hx.mono rfl (List.Subset.refl _), halone⟩

theorem Sound.addJob {j : DirJob κ χ} (hs : s.Sound lib) (hj : s.JobOk lib j)
    (halone : ∀ j' ∈ s.jobs, j'.dir ≠ j.dir) (hnot : ¬ (s.dirs j.dir).Complete) :
    Sound lib { s with jobs := s.jobs ++ [j] } := by
  refine { hs with jobs := ?_, apart := ?_, daemons := ?_ }
  · intro j' hmem
    rcases List.mem_append.mp hmem with hmem | hmem
    · exact (hs.jobs j' hmem).mono rfl (List.Subset.refl _) (List.Subset.refl _)
    · obtain rfl := List.mem_singleton.mp hmem
      exact hj.mono rfl (List.Subset.refl _) (List.Subset.refl _)
  · exact List.nodup_map_concat.mpr ⟨halone, hs.apart⟩
  · intro x hx
    obtain ⟨hok, hapart⟩ := hs.daemons x hx
    refine ⟨hok.mono rfl (List.Subset.refl _), fun j' hmem => ?_⟩
    rcases List.mem_append.mp hmem with hmem | hmem
    · exact hapart j' hmem
    · obtain rfl := List.mem_singleton.mp hmem
      intro hdir
      exact hnot (hdir ▸ hok.complete)

theorem Sound.settle {k : κ} (hs : s.Sound lib) (hk : k ∉ s.homes.map Prod.fst) (dir : String) :
    Sound lib { s with homes := (k, dir) :: s.homes } := by
  have hsub : s.homes ⊆ (k, dir) :: s.homes := List.subset_cons_self _ _
  refine { hs with jobs := ?_, daemons := ?_, homes := ?_, fresh := ?_ }
  · exact fun j hj => (hs.jobs j hj).mono rfl (List.Subset.refl _) hsub
  · exact fun x hx => ⟨(hs.daemons x hx).1.mono rfl (List.Subset.refl _), (hs.daemons x hx).2⟩
  · exact fun dir k hread => hsub (hs.homes dir k hread)
  · exact List.nodup_cons.mpr ⟨hk, hs.fresh⟩

theorem Sound.dropJob {i : ℕ} (hs : s.Sound lib) :
    Sound lib { s with jobs := s.jobs.eraseIdx i } := by
  have hsub : s.jobs.eraseIdx i ⊆ s.jobs := List.eraseIdx_subset
  refine { hs with jobs := ?_, apart := ?_, daemons := ?_ }
  · exact fun j hj => (hs.jobs j (hsub hj)).mono rfl (List.Subset.refl _) (List.Subset.refl _)
  · exact ((List.eraseIdx_sublist _ _).map DirJob.dir).nodup hs.apart
  · intro x hx
    obtain ⟨hok, hapart⟩ := hs.daemons x hx
    exact ⟨hok.mono rfl (List.Subset.refl _), fun j hj => hapart j (hsub hj)⟩

theorem Sound.stop {i : ℕ} (hs : s.Sound lib) :
    Sound lib { s with daemons := s.daemons.eraseIdx i } := by
  refine { hs with jobs := ?_, daemons := fun x hx => ?_ }
  · exact fun j hj => (hs.jobs j hj).mono rfl (List.Subset.refl _) (List.Subset.refl _)
  · obtain ⟨hok, hapart⟩ := hs.daemons x (List.eraseIdx_subset hx)
    exact ⟨hok.mono rfl (List.Subset.refl _), hapart⟩

theorem Sound.write {i : ℕ} {w : DirWrite κ χ} {writes : List (DirWrite κ χ)}
    {starts : Option (PkiMaterial κ χ)} (hs : s.Sound lib)
    (hi : s.jobs[i]? = some ⟨dir, w :: writes, starts⟩) :
    Sound lib { s with
      dirs := Function.update s.dirs dir ((s.dirs dir).write w)
      jobs := s.jobs.set i ⟨dir, writes, starts⟩ } := by
  obtain ⟨l₁, l₂, hl, hset, -⟩ := List.split_of_getElem? hi
  have hapart := hs.apart
  rw [hl] at hapart
  obtain ⟨hothers, -⟩ := List.nodup_map_middle.mp hapart
  have hjob := hs.jobs _ (List.mem_of_getElem? hi)
  -- Nobody else has to do with the directory.
  have hother : ∀ dir', dir' ≠ dir →
      Function.update s.dirs dir ((s.dirs dir).write w) dir' = s.dirs dir' :=
    fun dir' hne => Function.update_of_ne hne _ _
  have hmem : ∀ j ∈ l₁ ++ ⟨dir, writes, starts⟩ :: l₂,
      j = ⟨dir, writes, starts⟩ ∨ j ∈ s.jobs ∧ j.dir ≠ dir := by
    intro j hj
    rw [List.mem_append, List.mem_cons] at hj
    have hold : j ∈ l₁ ++ l₂ → j ∈ s.jobs ∧ j.dir ≠ dir := by
      intro hj
      refine ⟨?_, hothers j hj⟩
      rw [hl]
      exact List.mem_append.mpr ((List.mem_append.mp hj).imp id (List.mem_cons_of_mem _))
    rcases hj with hj | rfl | hj
    · exact .inr (hold (List.mem_append_left _ hj))
    · exact .inl rfl
    · exact .inr (hold (List.mem_append_right _ hj))
  rw [hset]
  refine { hs with dirs := ?_, jobs := ?_, apart := ?_, daemons := ?_, homes := ?_ }
  · intro dir'
    by_cases hdir : dir' = dir
    · subst hdir
      dsimp only
      rw [Function.update_self]
      exact hjob.safe.2.ok
    · dsimp only
      rw [hother dir' hdir]
      exact hs.dirs dir'
  · intro j hj
    rcases hmem j hj with rfl | ⟨hold, hne⟩
    · refine ⟨?_, fun k hk => hjob.keys k (List.mem_cons_of_mem _ hk), fun m hm => ?_⟩
      · dsimp only
        rw [Function.update_self]
        exact hjob.safe.2
      · dsimp only
        rw [Function.update_self]
        exact hjob.starts m hm
    · exact (hs.jobs j hold).mono (hother _ hne) (List.Subset.refl _) (List.Subset.refl _)
  · have hsame : (l₁ ++ ⟨dir, writes, starts⟩ :: l₂).map DirJob.dir = s.jobs.map DirJob.dir := by
      rw [hl]
      simp
    exact hsame ▸ hs.apart
  · intro x hx
    obtain ⟨hok, hfree⟩ := hs.daemons x hx
    have hne : dir ≠ x.dir := hfree _ (List.mem_of_getElem? hi)
    refine ⟨hok.mono (hother _ hne.symm) (List.Subset.refl _), fun j hj => ?_⟩
    rcases hmem j hj with rfl | ⟨hold, -⟩
    · exact hne
    · exact hfree j hold
  · intro dir' k hread
    by_cases hdir : dir' = dir
    · subst hdir
      dsimp only at hread
      rw [Function.update_self] at hread
      rcases read_caKey_write hread with rfl | hread
      · exact hjob.keys k List.mem_cons_self
      · exact hs.homes dir' k hread
    · dsimp only at hread
      rw [hother dir' hdir] at hread
      exact hs.homes dir' k hread

theorem jobOk_generateCa {k nodeKey : κ} {nodeId : String} (hca : (s.dirs dir).caKey = none)
    (hnode : (s.dirs dir).nodeKey = none) (hhome : (k, dir) ∈ s.homes)
    (hsigned : (k, nodeId, lib.signedBy nodeId nodeKey k) ∈ s.signed) :
    s.JobOk lib ⟨dir, generateCa lib k,
      some ⟨lib.selfSigned k, lib.signedBy nodeId nodeKey k, nodeKey⟩⟩ := by
  refine ⟨safe_generateCa hca hnode, fun k' hk' => ?_, fun m hm => ?_⟩
  · obtain rfl : k' = k := by simpa [generateCa] using hk'
    exact hhome
  · obtain rfl := Option.some.inj hm
    refine ⟨⟨k, nodeId, rfl, hsigned⟩, ?_, .inl ?_⟩ <;>
      simp [generateCa, TlsDir.write, PemFile.read, PemFile.truncate, PemFile.fill]

theorem not_complete_of_none {d : TlsDir κ χ} (hca : d.caKey = none) (hnode : d.nodeKey = none) :
    ¬ d.Complete := by
  rintro (h | ⟨-, h⟩)
  · simp [hca, PemFile.read] at h
  · simp [hnode, PemFile.read] at h

variable [DecidableEq κ]

theorem Sound.start {nodeId : String} {caKey nodeKey : κ} (hs : s.Sound lib)
    (halone : ∀ j ∈ s.jobs, j.dir ≠ dir)
    (h : next lib s (.start dir nodeId caKey nodeKey) = some t) : t.Sound lib := by
  simp only [next] at h
  split_ifs at h with hfresh
  have hdir := hs.dirs dir
  rcases loadOrCreate_cases hdir nodeId caKey nodeKey with hload | ⟨ca, hca, hload⟩ |
    ⟨m, hca, hissued, hload⟩ | ⟨hca, hnode, hload⟩
  · rw [hload] at h
    obtain rfl := Option.some.inj h
    exact hs
  · -- The authority is here and signs a certificate for this run.
    rw [hload, hca] at h
    obtain rfl := Option.some.inj h
    obtain ⟨hcrt, hkey⟩ := loadCa_eq_some.mp hca
    have hself := hdir.loadCa hca
    refine (hs.sign (e := (ca.2, nodeId, _)) ⟨nodeKey, rfl⟩).launch ⟨?_, hcrt, .inl ?_⟩ halone
    · exact ⟨ca.2, nodeId, by rw [hself], List.mem_cons_self⟩
    · exact Option.isSome_iff_exists.mpr ⟨ca.2, hkey⟩
  · rw [hload, hca] at h
    obtain rfl := Option.some.inj h
    obtain ⟨hsigned, hcrt⟩ := hdir.loadIssued hissued
    refine hs.launch ⟨hsigned, hcrt, .inr ?_⟩ halone
    simp only [TlsDir.loadIssued, Option.bind_eq_bind, Option.bind_eq_some_iff] at hissued
    obtain ⟨-, -, nodeCert, hnode, key, hkey, -⟩ := hissued
    exact ⟨Option.isSome_iff_exists.mpr ⟨_, hnode⟩, Option.isSome_iff_exists.mpr ⟨_, hkey⟩⟩
  · rw [hload] at h
    obtain rfl := Option.some.inj h
    refine ((hs.settle hfresh dir).sign (e := (caKey, nodeId, _)) ⟨nodeKey, rfl⟩).addJob
      (jobOk_generateCa hca hnode List.mem_cons_self List.mem_cons_self) halone ?_
    exact not_complete_of_none hca hnode

theorem Sound.issue {nodeId out : String} {key : κ} (hs : s.Sound lib)
    (halone : ∀ j ∈ s.jobs, j.dir ≠ out) (hempty : s.dirs out = .empty)
    (h : next lib s (.issue dir nodeId out key) = some t) : t.Sound lib := by
  obtain ⟨⟨cert, ca⟩, hca, rfl⟩ := Option.map_eq_some_iff.mp h
  obtain rfl : cert = lib.selfSigned ca := (hs.dirs dir).loadCa hca
  refine (hs.sign (e := (ca, nodeId, _)) ⟨key, rfl⟩).addJob ⟨?_, ?_, ?_⟩ halone ?_
  · dsimp only
    rw [hempty]
    exact safe_issueCertToDir List.mem_cons_self
  · simp [issueCertToDir]
  · rintro m ⟨⟩
  · dsimp only
    rw [hempty]
    exact not_complete_of_none rfl rfl

theorem Sound.finish {i : ℕ} (hs : s.Sound lib) (h : next lib s (.finish i) = some t) :
    t.Sound lib := by
  simp only [next] at h
  split at h
  · obtain rfl := Option.some.inj h
    exact hs.dropJob
  · next dir material hi =>
    obtain rfl := Option.some.inj h
    obtain ⟨l₁, l₂, hl, -, herase⟩ := List.split_of_getElem? hi
    have hapart := hs.apart
    rw [hl] at hapart
    obtain ⟨hothers, -⟩ := List.nodup_map_middle.mp hapart
    obtain ⟨hsigned, hcrt, hcomplete⟩ :=
      (hs.jobs _ (List.mem_of_getElem? hi)).starts material rfl
    refine hs.dropJob.launch ⟨hsigned, hcrt, hcomplete⟩ fun j hj => ?_
    dsimp only at hj
    rw [herase] at hj
    exact hothers j hj
  · cases h

theorem Sound.step {a : MeshAct κ} (hs : s.Sound lib) (h : (system lib).step s a t) :
    t.Sound lib := by
  obtain ⟨h, halone⟩ := h
  cases a with
  | start dir nodeId caKey nodeKey => exact hs.start halone h
  | issue dir nodeId out key => exact hs.issue halone.1 halone.2 h
  | write i =>
    simp only [Transition.ofNext, next] at h
    split at h
    · next dir w writes starts hi =>
      obtain rfl := Option.some.inj h
      exact hs.write hi
    · cases h
  | finish i => exact hs.finish h
  | die i =>
    obtain ⟨-, h⟩ := Option.ite_none_right_eq_some.mp h
    obtain rfl := Option.some.inj h
    exact hs.dropJob
  | stop i =>
    obtain ⟨-, h⟩ := Option.ite_none_right_eq_some.mp h
    obtain rfl := Option.some.inj h
    exact hs.stop

theorem sound_of_reachable (h : (system lib).Reachable s) : s.Sound lib := by
  refine h.invariant (I := Sound lib) ?_ fun _ _ _ hs hstep => hs.step hstep
  rintro s rfl
  refine ⟨fun dir => TlsDir.ok_of_none rfl rfl, ?_, ?_, ?_, ?_, ?_, ?_⟩ <;>
    simp [Mesh.start, TlsDir.empty, PemFile.read]

/-! ## Over whole runs -/

/-- Nobody ever writes to a directory again that a daemon can start from. -/
theorem Sound.kept {a : MeshAct κ} (hs : s.Sound lib) (h : (system lib).step s a t)
    (hcomplete : (s.dirs dir).Complete) (hfree : ∀ j ∈ s.jobs, j.dir ≠ dir) :
    t.dirs dir = s.dirs dir ∧ ∀ j ∈ t.jobs, j.dir ≠ dir := by
  have hadd : ∀ j : DirJob κ χ, ¬ (s.dirs j.dir).Complete →
      ∀ j' ∈ s.jobs ++ [j], j'.dir ≠ dir := by
    intro j hnot j' hj'
    rcases List.mem_append.mp hj' with hj' | hj'
    · exact hfree j' hj'
    · obtain rfl := List.mem_singleton.mp hj'
      rintro rfl
      exact hnot hcomplete
  obtain ⟨h, halone⟩ := h
  cases a with
  | start dir' nodeId caKey nodeKey =>
    simp only [Transition.ofNext, next] at h
    split_ifs at h
    rcases loadOrCreate_cases (hs.dirs dir') nodeId caKey nodeKey with hload | ⟨ca, -, hload⟩ |
      ⟨m, -, -, hload⟩ | ⟨hca, hnode, hload⟩ <;> rw [hload] at h <;> obtain rfl := Option.some.inj h
    · exact ⟨rfl, hfree⟩
    · exact ⟨rfl, hfree⟩
    · exact ⟨rfl, hfree⟩
    · exact ⟨rfl, hadd _ (not_complete_of_none hca hnode)⟩
  | issue dir' nodeId out key =>
    obtain ⟨ca, -, rfl⟩ := Option.map_eq_some_iff.mp h
    refine ⟨rfl, hadd _ ?_⟩
    dsimp only
    rw [halone.2]
    exact not_complete_of_none rfl rfl
  | write i =>
    simp only [Transition.ofNext, next] at h
    split at h
    · next dir' w writes starts hi =>
      obtain rfl := Option.some.inj h
      have hne : dir' ≠ dir := hfree _ (List.mem_of_getElem? hi)
      refine ⟨Function.update_of_ne hne.symm _ _, fun j hj => ?_⟩
      rcases List.mem_or_eq_of_mem_set hj with hj | rfl
      · exact hfree j hj
      · exact hne
    · cases h
  | finish i =>
    simp only [Transition.ofNext, next] at h
    split at h
    · obtain rfl := Option.some.inj h
      exact ⟨rfl, fun j hj => hfree j (List.eraseIdx_subset hj)⟩
    · obtain rfl := Option.some.inj h
      exact ⟨rfl, fun j hj => hfree j (List.eraseIdx_subset hj)⟩
    · cases h
  | die i =>
    obtain ⟨-, h⟩ := Option.ite_none_right_eq_some.mp h
    obtain rfl := Option.some.inj h
    exact ⟨rfl, fun j hj => hfree j (List.eraseIdx_subset hj)⟩
  | stop i =>
    obtain ⟨-, h⟩ := Option.ite_none_right_eq_some.mp h
    obtain rfl := Option.some.inj h
    exact ⟨rfl, hfree⟩

theorem Sound.kept_of_reaches (hs : s.Sound lib) (h : (system lib).Reaches s t)
    (hcomplete : (s.dirs dir).Complete) (hfree : ∀ j ∈ s.jobs, j.dir ≠ dir) :
    t.Sound lib ∧ t.dirs dir = s.dirs dir := by
  have hinv : t.Sound lib ∧ t.dirs dir = s.dirs dir ∧ ∀ j ∈ t.jobs, j.dir ≠ dir := by
    refine h.preserves (I := fun u => u.Sound lib ∧ u.dirs dir = s.dirs dir ∧
      ∀ j ∈ u.jobs, j.dir ≠ dir) (fun u a v hu hstep => ?_) ⟨hs, rfl, hfree⟩
    obtain ⟨hu, hsame, hfree⟩ := hu
    obtain ⟨hkept, hfree'⟩ := hu.kept hstep (hsame ▸ hcomplete) hfree
    exact ⟨hu.step hstep, hkept.trans hsame, hfree'⟩
  exact ⟨hinv.1, hinv.2.1⟩

/-- In every state of every run, with processes stopped at any time: two daemons accept each other
exactly if they have the same authority; a daemon accepts a certificate exactly if it was signed
with the key of its authority, and sees the name it was signed for; the key of an authority is in
one directory only, and keys only in files of mode `0600`; and from the directory of a daemon one
starts at any later time, with the same authority. -/
theorem mesh_trust (hl : lib.Lawful) (h : (system lib).Reachable s) :
    (∀ x ∈ s.daemons, ∀ y ∈ s.daemons,
      lib.verifies x.material.caCert y.material.nodeCert = true ↔
        x.material.caCert = y.material.caCert) ∧
    (∀ x ∈ s.daemons, ∃ ca, x.material.caCert = lib.selfSigned ca ∧ ∀ e ∈ s.signed,
      (lib.verifies x.material.caCert e.2.2 = true ↔ e.1 = ca) ∧
        lib.commonName e.2.2 = some e.2.1) ∧
    (∀ dir dir' k, PemFile.read (s.dirs dir).caKey = some k →
      PemFile.read (s.dirs dir').caKey = some k → dir = dir') ∧
    (∀ dir f, (s.dirs dir).caKey = some f ∨ (s.dirs dir).nodeKey = some f →
      f.content.isSome = true → f.ownerOnly = true) ∧
    ∀ x ∈ s.daemons, ∀ t, (system lib).Reaches s t → ∀ nodeId caKey nodeKey,
      ∃ m, loadOrCreate lib (t.dirs x.dir) nodeId caKey nodeKey = .ready m ∧
        m.caCert = x.material.caCert := by
  have hs := sound_of_reachable h
  refine ⟨fun x hx y hy => ?_, fun x hx => ?_, fun dir dir' k hk hk' => ?_,
    fun dir f => (hs.dirs dir).secret f, fun x hx t ht nodeId caKey nodeKey => ?_⟩
  · obtain ⟨ca, cn, hm, -⟩ := (hs.daemons x hx).1.signed
    obtain ⟨ca', cn', hm', -⟩ := (hs.daemons y hy).1.signed
    rw [hm, hm', hl.verifies_signedBy]
    constructor
    · rintro rfl
      rfl
    · -- A certificate of its own is accepted under each of the two.
      intro heq
      have hself := (hl.verifies_signedBy ca' ca' cn' y.material.nodeKey).mpr rfl
      rwa [← show lib.selfSigned ca = lib.selfSigned ca' from heq, hl.verifies_signedBy] at hself
  · obtain ⟨ca, cn, hm, -⟩ := (hs.daemons x hx).1.signed
    refine ⟨ca, by rw [hm], fun e he => ?_⟩
    obtain ⟨key, hkey⟩ := hs.signed e he
    rw [hm, hkey, hl.verifies_signedBy, hl.commonName_signedBy]
    exact ⟨eq_comm, rfl⟩
  · have hinj := List.inj_on_of_nodup_map hs.fresh (hs.homes dir k hk) (hs.homes dir' k hk') rfl
    exact congrArg Prod.snd hinj
  · obtain ⟨hok, hfree⟩ := hs.daemons x hx
    obtain ⟨ht, hsame⟩ := hs.kept_of_reaches ht hok.complete hfree
    rw [hsame]
    exact hok.complete.ready (hs.dirs x.dir) hok.caCrt nodeId caKey nodeKey

def namingLib : CertLib ℕ (ℕ ⊕ String × ℕ × ℕ) where
  selfSigned ca := .inl ca
  signedBy cn key ca := .inr (cn, key, ca)
  verifies
    | .inl ca, .inr (_, _, ca') => ca == ca'
    | _, _ => false
  commonName
    | .inl _ => none
    | .inr (cn, _, _) => some cn

theorem namingLib_lawful : namingLib.Lawful :=
  ⟨fun _ _ _ _ => beq_iff_eq, fun _ _ _ => rfl⟩

/-- A daemon makes an authority, which issues for a second one; a third daemon is on its own. -/
def threeStarts : List (MeshAct ℕ) :=
  [.start "a" "a" 1 2] ++ List.replicate 5 (.write 0) ++ [.finish 0, .issue "a" "b" "b" 3] ++
    List.replicate 7 (.write 0) ++ [.finish 0, .start "b" "b" 4 5, .start "c" "c" 6 7] ++
    List.replicate 5 (.write 0) ++ [.finish 0]

def threeNodes : Mesh ℕ (ℕ ⊕ String × ℕ × ℕ) :=
  Transition.run (fun s a => if s.Alone a then next namingLib s a else none) start threeStarts

theorem mesh_trust_threeNodes : ∃ a b c, threeNodes.daemons = [a, b, c] ∧
    namingLib.verifies a.material.caCert b.material.nodeCert = true ∧
    namingLib.verifies b.material.caCert a.material.nodeCert = true ∧
    namingLib.verifies a.material.caCert c.material.nodeCert = false := by
  have hr : (system namingLib).Reachable threeNodes :=
    ⟨start, rfl, Transition.reaches_restrict_of_exec threeStarts rfl⟩
  obtain ⟨htrust, -⟩ := mesh_trust namingLib_lawful hr
  refine ⟨⟨"a", ⟨.inl 1, .inr ("a", 2, 1), 2⟩⟩, ⟨"b", ⟨.inl 1, .inr ("b", 3, 1), 3⟩⟩,
    ⟨"c", ⟨.inl 6, .inr ("c", 7, 6), 7⟩⟩, rfl, ?_, ?_, ?_⟩
  · exact (htrust _ (.head _) _ (.tail _ (.head _))).mpr rfl
  · exact (htrust _ (.tail _ (.head _)) _ (.head _)).mpr rfl
  · refine Bool.eq_false_of_not_eq_true fun hverifies => ?_
    have heq := (htrust _ (.head _) _ (.tail _ (.tail _ (.head _)))).mp hverifies
    exact absurd heq (by decide)

end Mesh

end Stouter
