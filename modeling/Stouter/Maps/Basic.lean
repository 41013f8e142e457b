import Mathlib.Data.List.AList

/-! # Finite maps

`HashMap κ ν` is an association list without duplicate keys. Beyond what
`AList` provides, the operations here change a value in place, keep the
entries that pass a test and list the values; each comes with the lookup
lemma that later proofs use instead of its definition.
-/

/-- A finite map with keys in `κ` and values in `ν`. -/
abbrev HashMap (κ ν : Type*) := AList (fun _ : κ => ν)

namespace HashMap

variable {κ ν : Type*} [DecidableEq κ] {m : HashMap κ ν} {k k' : κ} {v : ν}

theorem lookup_insert_eq_ite (m : HashMap κ ν) (k k' : κ) (v : ν) :
    AList.lookup k' (m.insert k v) = if k' = k then some v else m.lookup k' := by
  split_ifs with h
  · rw [h, AList.lookup_insert]
  · exact AList.lookup_insert_ne h

theorem lookup_erase_eq_ite (m : HashMap κ ν) (k k' : κ) :
    AList.lookup k' (m.erase k) = if k' = k then none else m.lookup k' := by
  split_ifs with h
  · rw [h, AList.lookup_erase]
  · exact AList.lookup_erase_ne h

theorem mem_of_lookup (h : m.lookup k = some v) : k ∈ m := by
  rw [← AList.lookup_isSome, h, Option.isSome_some]

theorem exists_lookup (h : k ∈ m) : ∃ v, m.lookup k = some v :=
  Option.isSome_iff_exists.mp (AList.lookup_isSome.mpr h)

/-- Change every value, keeping the keys. -/
def mapValues (f : κ → ν → ν) (m : HashMap κ ν) : HashMap κ ν where
  entries := m.entries.map fun e => ⟨e.1, f e.1 e.2⟩
  nodupKeys := by
    have hk : (m.entries.map fun e => (⟨e.1, f e.1 e.2⟩ : Σ _ : κ, ν)).keys = m.entries.keys := by
      simp [List.keys, Function.comp_def]
    rw [List.NodupKeys, hk]
    exact m.nodupKeys

@[simp] theorem lookup_mapValues (f : κ → ν → ν) (m : HashMap κ ν) (k : κ) :
    AList.lookup k (mapValues f m) = (m.lookup k).map (f k) :=
  List.dlookup_map₂ (γ := fun _ => ν) (δ := fun _ => ν) (f := f) k

theorem mem_mapValues {f : κ → ν → ν} : k ∈ mapValues f m ↔ k ∈ m := by
  rw [← AList.lookup_isSome, ← AList.lookup_isSome, lookup_mapValues, Option.isSome_map]

/-- Change the value of one key, if it is present. -/
def modify (k : κ) (f : ν → ν) (m : HashMap κ ν) : HashMap κ ν :=
  mapValues (fun k' v => if k' = k then f v else v) m

theorem lookup_modify (k k' : κ) (f : ν → ν) (m : HashMap κ ν) :
    AList.lookup k' (modify k f m) = if k' = k then (m.lookup k).map f else m.lookup k' := by
  rw [modify, lookup_mapValues]
  split_ifs with h
  · rw [h]
  · exact Option.map_id'

theorem mem_modify {f : ν → ν} : k' ∈ modify k f m ↔ k' ∈ m := mem_mapValues

theorem mem_modify_of_lookup {f : ν → ν} (h : m.lookup k = some v) :
    k' ∈ modify k f m ↔ k' = k ∨ k' ∈ m := by
  rw [mem_modify]
  refine ⟨.inr, ?_⟩
  rintro (rfl | hk)
  · exact mem_of_lookup h
  · exact hk

/-- Keep the entries that pass the test. -/
def retain (p : κ → ν → Bool) (m : HashMap κ ν) : HashMap κ ν where
  entries := m.entries.filter fun e => p e.1 e.2
  nodupKeys := m.nodupKeys.sublist List.filter_sublist

theorem lookup_retain (p : κ → ν → Bool) (m : HashMap κ ν) (k : κ) :
    AList.lookup k (retain p m) = (m.lookup k).filter (p k) := by
  ext v
  have h : v ∈ AList.lookup k (retain p m) ↔ v ∈ m.lookup k ∧ p k v = true := by
    rw [AList.mem_lookup_iff, AList.mem_lookup_iff]
    exact List.mem_filter
  simpa [Option.filter_eq_some_iff] using h

def values (m : HashMap κ ν) : List ν := m.entries.map Sigma.snd

theorem mem_values : v ∈ values m ↔ ∃ k, m.lookup k = some v := by
  simp only [values, List.mem_map]
  constructor
  · rintro ⟨⟨k, v⟩, he, rfl⟩
    exact ⟨k, AList.mem_lookup_iff.mpr he⟩
  · rintro ⟨k, hk⟩
    exact ⟨⟨k, v⟩, AList.mem_lookup_iff.mp hk, rfl⟩

/-! ## Predicates on all entries -/

def All (Q : κ → ν → Prop) (m : HashMap κ ν) : Prop := ∀ k v, m.lookup k = some v → Q k v

section All

variable {Q : κ → ν → Prop}

theorem all_empty : All Q (∅ : HashMap κ ν) := by
  intro k v h
  simp at h

theorem All.insert (h : All Q m) (hv : Q k v) : All Q (m.insert k v) := by
  intro k' v' hk
  rw [lookup_insert_eq_ite] at hk
  split_ifs at hk with he
  · obtain rfl := Option.some.inj hk
    rw [he]
    exact hv
  · exact h k' v' hk

theorem All.erase (h : All Q m) : All Q (m.erase k) := by
  intro k' v' hk
  rw [lookup_erase_eq_ite] at hk
  split_ifs at hk
  exact h k' v' hk

theorem All.mapValues (h : All Q m) {f : κ → ν → ν} (hf : ∀ k v, Q k v → Q k (f k v)) :
    All Q (HashMap.mapValues f m) := by
  intro k v hk
  rw [lookup_mapValues] at hk
  obtain ⟨v', hv', rfl⟩ := Option.map_eq_some_iff.mp hk
  exact hf k v' (h k v' hv')

theorem All.modify (h : All Q m) {f : ν → ν} (hf : ∀ v, Q k v → Q k (f v)) :
    All Q (HashMap.modify k f m) := by
  apply h.mapValues
  intro k' v hv
  split_ifs with he
  · subst he
    exact hf v hv
  · exact hv

end All

end HashMap
