import Stouter.Gossip.Steps
import Stouter.Histories.Basic

/-! # Changes and the versions they get

A change enters a daemon by an admin mutation or by a poll pass over its config
file, and gets the next version. A poll pass sees a change of the file that
kept the version only if the service groups differ; the next version of
`u64::MAX` is zero, which no peer adopts.
-/

namespace Stouter

/-! ## What a poll pass notices -/

namespace Store

/-- A stale file is left alone. Otherwise memory and file end with the contents of the file, at the
version of the file if it is ahead, and one above memory if they differ at the same version. -/
def Noticed (memory file : DynamicConfig) (t : Store) : Prop :=
  (file.version < memory.version ∧ t = ⟨memory, some file⟩) ∨
    t.file = some t.memory ∧ t.memory.serviceGroups = file.serviceGroups ∧
      t.memory.routes = file.routes ∧
      (memory.version < file.version → t.memory.version = file.version) ∧
      (file = memory → t.memory.version = memory.version) ∧
      (file.version = memory.version → file ≠ memory →
        t.memory.version.toNat = memory.version.toNat + 1)

variable {memory file dc : DynamicConfig}

theorem poll_ok (memory file : DynamicConfig) :
    (poll true true ⟨memory, some file⟩).2 =
      match adopted memory file with
      | none => ⟨memory, some file⟩
      | some dc => ⟨dc, some dc⟩ := by
  simp only [poll, if_true]
  cases adopted memory file <;> rfl

theorem adopted_ahead (h : memory.version < file.version) : adopted memory file = some file := by
  have hle : ¬ file.version ≤ memory.version := UInt64.not_le.mpr h
  simp [adopted, h, hle]

theorem adopted_edited (h : file.version = memory.version)
    (hg : file.serviceGroups ≠ memory.serviceGroups) :
    adopted memory file = some { file with version := memory.version + 1 } := by
  simp [adopted, h, hg]

theorem adopted_same (h : file.version = memory.version)
    (hg : file.serviceGroups = memory.serviceGroups) : adopted memory file = none := by
  simp [adopted, h, hg]

theorem adopted_stale (h : file.version < memory.version) : adopted memory file = none := by
  have hle : ¬ file.version > memory.version := UInt64.lt_asymm h
  have hne : file.version ≠ memory.version := UInt64.ne_of_lt h
  simp [adopted, hle, hne]

/-- A poll pass with a readable and writable file notices every change except one of the routes
alone that keeps the version. -/
theorem poll_noticed_iff (hv : memory.version ≠ maxVersion) :
    Noticed memory file (poll true true ⟨memory, some file⟩).2 ↔
      (file.version = memory.version → file.serviceGroups = memory.serviceGroups →
        file.routes = memory.routes) := by
  rw [poll_ok]
  by_cases h : file.version = memory.version
  · by_cases hg : file.serviceGroups = memory.serviceGroups
    · -- The pass sees no difference, so there must not be one in the routes.
      rw [adopted_same h hg]
      constructor
      · rintro (⟨hlt, -⟩ | ⟨-, -, hr, -⟩) - -
        · exact absurd h (UInt64.ne_of_lt hlt)
        · exact hr.symm
      · intro hr
        obtain rfl : file = memory := by
          cases file
          cases memory
          simp only [DynamicConfig.mk.injEq]
          exact ⟨h, hg, hr h hg⟩
        exact .inr ⟨rfl, rfl, rfl, fun _ => rfl, fun _ => rfl, fun _ hne => absurd rfl hne⟩
    · rw [adopted_edited h hg]
      refine ⟨fun _ _ he => absurd he hg, fun _ => .inr ⟨rfl, rfl, rfl, fun hlt => ?_,
        fun he => ?_, fun _ _ => toNat_version_succ (toNat_succ_lt hv)⟩⟩
      · exact absurd h.symm (UInt64.ne_of_lt hlt)
      · exact absurd (congrArg DynamicConfig.serviceGroups he) hg
  · refine ⟨fun _ he => absurd he h, fun _ => ?_⟩
    rcases UInt64.lt_or_lt_of_ne h with hlt | hlt
    · rw [adopted_stale hlt]
      exact .inl ⟨hlt, rfl⟩
    · rw [adopted_ahead hlt]
      exact .inr ⟨rfl, rfl, rfl, fun _ => rfl, congrArg _, fun he => absurd he h⟩

def splitApi (version : UInt64) (routes : List Route) : DynamicConfig :=
  ⟨version, [⟨"web", [⟨"api", "n1", 3000, [], 1, none, .http, none, none, ∅, ∅, none⟩]⟩], routes⟩

def toAll : Route := ⟨none, "api", ⟨none, none, ∅⟩, [⟨∅, 1⟩]⟩

theorem poll_noticed_newer :
    (splitApi 5 []).version ≠ maxVersion ∧
      Noticed (splitApi 5 []) (splitApi 6 [toAll])
        (poll true true ⟨splitApi 5 [], some (splitApi 6 [toAll])⟩).2 :=
  ⟨by decide, (poll_noticed_iff (by decide)).mpr fun h => absurd h (by decide)⟩

/-- A route added to the file by hand is not adopted, and the next save writes the file without
it. -/
theorem poll_overlooks_routes :
    (splitApi 5 []).version ≠ maxVersion ∧ (splitApi 5 [toAll]).version ≠ maxVersion ∧
      ¬ Noticed (splitApi 5 []) (splitApi 5 [toAll])
        (poll true true ⟨splitApi 5 [], some (splitApi 5 [toAll])⟩).2 := by
  refine ⟨by decide, by decide, ?_⟩
  rw [poll_noticed_iff (by decide)]
  intro h
  exact absurd (h rfl rfl) (by decide)

end Store

/-! ## What an acknowledged change outranks -/

namespace Cluster

variable {ι : Type*} {s t : Cluster ι} {a : ClusterAct ι} {http : HttpCrate} {i : ι} {v : UInt64}

/-- The step makes the daemon answer a mutation with the new version, or adopt its file at it. -/
def Acknowledged (http : HttpCrate) (s : Cluster ι) (i : ι) (v : UInt64) : ClusterAct ι → Prop
  | .admin j peerCn op saved _ => j = i ∧
      (handleAdminRequest http (s.daemons i).config peerCn op saved (s.daemons i).store).result =
        .ok v
  | .poll j loaded saved _ => j = i ∧
      ∃ dc, ((s.daemons i).store.poll loaded saved).1 = some dc ∧ dc.version = v
  | _ => False

def recipients : ClusterAct ι → List ι
  | .admin _ _ _ _ peers => peers
  | .poll _ _ _ peers => peers
  | _ => []

variable [DecidableEq ι]

/-- The new version is above the one it replaced, and the peers it was broadcast to adopt it
whenever it reaches them while they are still at the old one. -/
structure Outranks (http : HttpCrate) (s t : Cluster ι) (a : ClusterAct ι) (i : ι) (v : UInt64) :
    Prop where
  version : (t.daemons i).store.memory.version = v
  higher : (s.daemons i).store.memory.version < v
  sent : ∀ dst ∈ recipients a, ⟨i, dst, .configUpdate (t.daemons i).store.memory⟩ ∈ t.net
  adopted : ∀ u, (gossip http).Reaches t u → ∀ k dst saved w,
    u.net[k]? = some ⟨i, dst, .configUpdate (t.daemons i).store.memory⟩ →
    (u.daemons dst).store.memory.version = (s.daemons i).store.memory.version →
    next http u (.mergeConfig k saved) = some w →
    (w.daemons dst).store.memory = (t.daemons i).store.memory

theorem announces_of_acknowledged (h : next http s a = some t)
    (ha : Acknowledged http s i v a) :
    ∃ store, t = s.announce i (recipients a) store (some store.memory) ∧
      store.memory.version = v ∧
      ((s.daemons i).store.memory.version ≠ maxVersion →
        (s.daemons i).store.memory.version < v) := by
  cases a with
  | admin j peerCn op saved peers =>
    obtain ⟨rfl, hr⟩ := ha
    obtain rfl := Option.some.inj h
    rcases handleAdminRequest_cases http (s.daemons j).config peerCn op saved (s.daemons j).store
      with ⟨code, msg, he⟩ | ⟨dc, -, hver, he⟩
    · rw [he] at hr
      cases hr
    · rw [he] at hr ⊢
      obtain rfl := AdminResult.ok.inj hr
      exact ⟨_, rfl, hver, version_lt_succ⟩
  | poll j loaded saved peers =>
    obtain ⟨rfl, dc, hp, rfl⟩ := ha
    obtain rfl := Option.some.inj h
    rcases (s.daemons j).store.poll_cases loaded saved with he | ⟨file, dc', -, had, he⟩
    · rw [he] at hp
      cases hp
    · rw [he] at hp ⊢
      obtain rfl := Option.some.inj hp
      exact ⟨_, rfl, rfl, Store.adopted_version had⟩
  | _ => exact ha.elim

theorem memory_mergeConfig {u w : Cluster ι} {k : ℕ} {src dst : ι} {dc : DynamicConfig}
    {saved : Bool} (hk : u.net[k]? = some ⟨src, dst, .configUpdate dc⟩)
    (hlt : (u.daemons dst).store.memory.version < dc.version)
    (h : next http u (.mergeConfig k saved) = some w) : (w.daemons dst).store.memory = dc := by
  simp only [next, hk, Option.bind_some, Message.config?, Option.map_some, Option.some.injEq] at h
  subst h
  rw [setDaemon_daemons, if_pos rfl]
  simp [Store.merge, hlt]

theorem outranks_iff (h : next http s a = some t) (ha : Acknowledged http s i v a) :
    Outranks http s t a i v ↔ (s.daemons i).store.memory.version ≠ maxVersion := by
  obtain ⟨store, rfl, rfl, hhigher⟩ := announces_of_acknowledged h ha
  have hmem : ((s.announce i (recipients a) store (some store.memory)).daemons i).store.memory =
      store.memory := by
    rw [announce_daemons, if_pos rfl]
  constructor
  · intro ho hmax
    have hlt := ho.higher
    rw [hmax, UInt64.lt_iff_toNat_lt] at hlt
    have hbound := store.memory.version.toNat_lt
    exact absurd hlt (by change ¬ 2 ^ 64 - 1 < _; omega)
  · intro hne
    refine ⟨by rw [hmem], hhigher hne, fun dst hdst => ?_, fun u _ k dst saved w hk hv hw => ?_⟩
    · rw [hmem]
      exact List.mem_append_right _ (List.mem_map.mpr ⟨dst, hdst, rfl⟩)
    · rw [hmem] at hk ⊢
      exact memory_mergeConfig hk (hv ▸ hhigher hne) hw

/-- The acknowledged changes of a run outrank what they changed exactly if none of them was made at
the last version. -/
theorem changes_outrank_iff {start : Cluster ι} {log : List (Applied (Cluster ι) (ClusterAct ι))}
    (h : Applied.Chain (gossip http).step start log) :
    (∀ r ∈ log, ∀ i v, Acknowledged http r.before i v r.op →
        Outranks http r.before r.after r.op i v) ↔
      ∀ r ∈ log, ∀ i v, Acknowledged http r.before i v r.op →
        (r.before.daemons i).store.memory.version ≠ maxVersion := by
  constructor
  · intro hall r hr i v ha
    exact (outranks_iff (h.of_mem hr) ha).mp (hall r hr i v ha)
  · intro hall r hr i v ha
    exact (outranks_iff (h.of_mem hr) ha).mpr (hall r hr i v ha)

/-- Two nodes that have loaded a file with the given version and accept changes from `ops`. -/
def loadedAt (version : UInt64) : Cluster (Fin 2) where
  daemons i :=
    { startedNode (["n1", "n2"].get i) with
      config := { (startedNode (["n1", "n2"].get i)).config with adminCns := ["ops"] }
      store := ⟨Store.splitApi version [], some (Store.splitApi version [])⟩ }
  net := []

theorem booted_loadedAt (version : UInt64) : Booted (loadedAt version) :=
  ⟨rfl, fun _ => ⟨rfl, rfl⟩⟩

def removeApi : ClusterAct (Fin 2) :=
  .admin 0 (some "ops") (.serviceRemove "web" "n1" "api") true [1]

def removal (version : UInt64) : List (Applied (Cluster (Fin 2)) (ClusterAct (Fin 2))) :=
  [⟨removeApi, loadedAt version, Transition.run (next plainHttp) (loadedAt version) [removeApi]⟩]

theorem chain_removal (version : UInt64) :
    Applied.Chain (gossip plainHttp).step (loadedAt version) (removal version) := by
  rw [← List.nil_append (removal version)]
  exact .concat .nil rfl (Transition.next_eq_some_run rfl)

theorem removal_outranks :
    Acknowledged plainHttp (loadedAt 5) 0 6 removeApi ∧
      Outranks plainHttp (loadedAt 5) (Transition.run (next plainHttp) (loadedAt 5) [removeApi])
        removeApi 0 6 := by
  have hack : Acknowledged plainHttp (loadedAt 5) 0 6 removeApi := ⟨rfl, by decide⟩
  refine ⟨hack, (changes_outrank_iff (chain_removal 5)).mpr ?_ _ List.mem_cons_self 0 6 hack⟩
  intro r hr i v _
  obtain rfl := List.mem_singleton.mp hr
  change (5 : UInt64) ≠ maxVersion
  decide

/-- A removal at `u64::MAX` is acknowledged with version 0. -/
theorem removal_wraps :
    Booted (loadedAt maxVersion) ∧
      (gossip plainHttp).step (loadedAt maxVersion) removeApi
        (Transition.run (next plainHttp) (loadedAt maxVersion) [removeApi]) ∧
      Acknowledged plainHttp (loadedAt maxVersion) 0 0 removeApi ∧
      ¬ Outranks plainHttp (loadedAt maxVersion)
        (Transition.run (next plainHttp) (loadedAt maxVersion) [removeApi]) removeApi 0 0 := by
  have hack : Acknowledged plainHttp (loadedAt maxVersion) 0 0 removeApi :=
    ⟨rfl, by decide⟩
  refine ⟨booted_loadedAt _, Transition.next_eq_some_run rfl, hack, ?_⟩
  rw [outranks_iff (Transition.next_eq_some_run rfl) hack]
  intro h
  exact h rfl

end Cluster

end Stouter
