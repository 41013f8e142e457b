import Stouter.Config.Mutations

/-! # Memory and config file of one daemon

The sections of the daemon that run under the lock of the dynamic
configuration: adopting a gossiped configuration, an admin mutation, a
config-poll pass, and persisting. Each save may fail and then leaves the file
as it was.
-/

namespace Stouter

def maxVersion : UInt64 := 0xFFFFFFFFFFFFFFFF

theorem toNat_succ_lt {v : UInt64} (h : v ≠ maxVersion) : v.toNat + 1 < 2 ^ 64 := by
  have hv : v.toNat ≠ 2 ^ 64 - 1 := fun he => h (UInt64.toNat_inj.mp (by rw [he]; rfl))
  have hlt := v.toNat_lt
  omega

theorem version_lt_succ {v : UInt64} (h : v ≠ maxVersion) : v < v + 1 := by
  rw [UInt64.lt_iff_toNat_lt, toNat_version_succ (toNat_succ_lt h)]
  omega

/-- The dynamic configuration in memory and in the config file, `none` when the file cannot be
loaded. -/
structure Store where
  memory : DynamicConfig
  file : Option DynamicConfig
  deriving DecidableEq

/-- Load the file, replace its dynamic part and save it. -/
def persistStateWith (saved : Bool) (dc : DynamicConfig) :
    Option DynamicConfig → Option DynamicConfig
  | none => none
  | some old => if saved then some dc else some old

namespace Store

/-- The locked section of `merge_sync` and of a `ConfigUpdate`. -/
def merge (config : DynamicConfig) (saved : Bool) (s : Store) : Store :=
  if config.version > s.memory.version then
    ⟨config, persistStateWith saved config s.file⟩
  else
    s

/-- The locked section of `handle_admin_request`. -/
def admin (http : HttpCrate) (op : AdminOp) (saved : Bool) (s : Store) :
    Except MutateErr UInt64 × Store :=
  match op.mutate http s.memory with
  | (.ok newVersion, dc) => (.ok newVersion, ⟨dc, persistStateWith saved dc s.file⟩)
  | (.error err, dc) => (.error err, ⟨dc, s.file⟩)

/-- The configuration a poll pass adopts, given the one in memory and the one in the file. -/
def adopted (memory file : DynamicConfig) : Option DynamicConfig :=
  let newDc :=
    if file.version > memory.version then some file
    else if file.version = memory.version ∧ file.serviceGroups ≠ memory.serviceGroups then some file
    else none
  newDc.map fun dc =>
    if dc.version ≤ memory.version then { dc with version := memory.version + 1 } else dc

/-- One pass of `run_config_poll_loop`, with the configuration it broadcasts. -/
def poll (loaded saved : Bool) (s : Store) : Option DynamicConfig × Store :=
  match (if loaded then s.file else none) with
  | none => (none, s)
  | some file =>
    match adopted s.memory file with
    | none => (none, s)
    | some dc => (some dc, ⟨dc, persistStateWith saved dc s.file⟩)

/-- `persist_state` of a configuration borrowed under the read lock. -/
def persist (dc : DynamicConfig) (saved : Bool) (s : Store) : Store :=
  { s with file := persistStateWith saved dc s.file }

/-! ## What a locked section can do -/

/-- Memory keeps its configuration or takes one with a higher version, and the file keeps its
contents or takes those of memory. -/
structure Advances (s t : Store) : Prop where
  memory : t.memory = s.memory ∨ s.memory.version < t.memory.version
  file : t.file = s.file ∨ t.file = some t.memory

theorem Advances.refl (s : Store) : Advances s s := ⟨.inl rfl, .inl rfl⟩

theorem persistStateWith_cases (saved : Bool) (dc : DynamicConfig) (file : Option DynamicConfig) :
    persistStateWith saved dc file = file ∨ persistStateWith saved dc file = some dc := by
  cases file <;> cases saved <;> simp [persistStateWith]

theorem advances_merge (config : DynamicConfig) (saved : Bool) (s : Store) :
    Advances s (s.merge config saved) := by
  unfold merge
  split_ifs with h
  · exact ⟨.inr h, persistStateWith_cases saved config s.file⟩
  · exact .refl s

theorem admin_cases (http : HttpCrate) (op : AdminOp) (saved : Bool) (s : Store) :
    (∃ err, op.mutate http s.memory = (.error err, s.memory) ∧
        s.admin http op saved = (.error err, s)) ∨
      ∃ dc, op.mutate http s.memory = (.ok (s.memory.version + 1), dc) ∧
        dc.version = s.memory.version + 1 ∧
        s.admin http op saved =
          (.ok (s.memory.version + 1), ⟨dc, persistStateWith saved dc s.file⟩) := by
  rcases hm : op.mutate http s.memory with ⟨r, dc⟩
  have hc := op.mutates http s.memory
  rw [hm] at hc
  rcases hc with ⟨err, he⟩ | ⟨hok, hver⟩
  · obtain ⟨rfl, rfl⟩ := Prod.mk.inj he
    exact .inl ⟨err, rfl, by simp only [admin, hm]⟩
  · obtain rfl : r = .ok (s.memory.version + 1) := hok
    exact .inr ⟨dc, rfl, hver, by simp only [admin, hm]⟩

theorem advances_admin (http : HttpCrate) (op : AdminOp) (saved : Bool) {s : Store}
    (hv : s.memory.version ≠ maxVersion) : Advances s (s.admin http op saved).2 := by
  rcases admin_cases http op saved s with ⟨err, -, h⟩ | ⟨dc, -, hver, h⟩
  · rw [h]
    exact .refl s
  · rw [h]
    refine ⟨.inr ?_, persistStateWith_cases saved dc s.file⟩
    change s.memory.version < dc.version
    rw [hver]
    exact version_lt_succ hv

theorem adopted_version {memory file dc : DynamicConfig} (h : adopted memory file = some dc)
    (hv : memory.version ≠ maxVersion) : memory.version < dc.version := by
  obtain ⟨d, _, rfl⟩ := Option.map_eq_some_iff.mp h
  split_ifs with hle
  · exact version_lt_succ hv
  · exact UInt64.not_le.mp hle

theorem poll_cases (loaded saved : Bool) (s : Store) :
    s.poll loaded saved = (none, s) ∨
      ∃ file dc, s.file = some file ∧ adopted s.memory file = some dc ∧
        s.poll loaded saved = (some dc, ⟨dc, persistStateWith saved dc s.file⟩) := by
  unfold poll
  cases loaded with
  | false => exact .inl rfl
  | true =>
    cases hf : s.file with
    | none => exact .inl rfl
    | some file =>
      cases hd : adopted s.memory file with
      | none => exact .inl (by simp [hd])
      | some dc => exact .inr ⟨file, dc, rfl, hd, by simp [hd]⟩

theorem advances_poll (loaded saved : Bool) {s : Store} (hv : s.memory.version ≠ maxVersion) :
    Advances s (s.poll loaded saved).2 := by
  rcases poll_cases loaded saved s with h | ⟨file, dc, -, hd, h⟩
  · rw [h]
    exact .refl s
  · rw [h]
    exact ⟨.inr (adopted_version hd hv), persistStateWith_cases saved dc s.file⟩

end Store

end Stouter
