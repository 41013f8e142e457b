import Mathlib.Data.List.Sort
import Mathlib.Data.List.Dedup

/-! # In-place list updates and sorted sets

`updateFirst p f` changes the first element that passes a test, the effect of
writing through `iter_mut().find(p)`. Its main lemma splits the list at the
element `find?` returns. `sortDedup` lists the distinct elements in order.
`filterOrAll` is a filter that fails open: it keeps everything when nothing
passes the test. Joining chunks with a separator and splitting again gives the
list back. Matches that agree are found in any order. `DistinctFrom` is what a
loop with a set of seen keys checks.
-/

namespace List

variable {α β : Type*} {p : α → Bool} {f : α → α} {l : List α} {a : α}

/-- Apply `f` to the first element that passes the test. -/
def updateFirst (p : α → Bool) (f : α → α) : List α → List α
  | [] => []
  | a :: l => if p a then f a :: l else a :: updateFirst p f l

/-- The list split at the first element that passes the test, before and after the update. -/
theorem updateFirst_split (h : l.find? p = some a) (f : α → α) :
    ∃ l₁ l₂, l = l₁ ++ a :: l₂ ∧ (∀ b ∈ l₁, p b = false) ∧ p a = true ∧
      updateFirst p f l = l₁ ++ f a :: l₂ := by
  induction l with
  | nil => simp at h
  | cons b l ih =>
    by_cases hb : p b = true
    · obtain rfl : b = a := by simpa [hb] using h
      exact ⟨[], l, rfl, by simp, hb, by simp [updateFirst, hb]⟩
    · obtain ⟨l₁, l₂, rfl, h₁, ha, hu⟩ := ih (by simpa [find?_cons, hb] using h)
      refine ⟨b :: l₁, l₂, rfl, ?_, ha, by simp [updateFirst, hb, hu]⟩
      simpa [hb] using h₁

theorem updateFirst_eq_self (h : l.find? p = some a) (ha : f a = a) : updateFirst p f l = l := by
  obtain ⟨l₁, l₂, hl, _, _, hu⟩ := updateFirst_split h f
  rw [hu, ha, ← hl]

theorem find?_updateFirst_of_not {q : α → Bool}
    (h : ∀ a, p a = true → q a = false ∧ q (f a) = false) :
    (updateFirst p f l).find? q = l.find? q := by
  induction l with
  | nil => rfl
  | cons a l ih =>
    by_cases ha : p a = true
    · simp [updateFirst, ha, h a ha]
    · simp [updateFirst, ha, find?_cons, ih]

theorem find?_updateFirst (h : ∀ a, p a = true → p (f a) = true) :
    (updateFirst p f l).find? p = (l.find? p).map f := by
  induction l with
  | nil => rfl
  | cons a l ih =>
    by_cases ha : p a = true
    · simp [updateFirst, ha, h a ha]
    · simp [updateFirst, ha, ih]

theorem filter_updateFirst {q : α → Bool}
    (h : ∀ a, p a = true → q a = false ∧ q (f a) = false) :
    (updateFirst p f l).filter q = l.filter q := by
  induction l with
  | nil => rfl
  | cons a l ih =>
    by_cases ha : p a = true
    · simp [updateFirst, ha, h a ha]
    · simp [updateFirst, ha, filter_cons, ih]

theorem filter_flatMap_updateFirst {F : α → List β} {q : β → Bool}
    (h : ∀ a, p a = true → (F (f a)).filter q = (F a).filter q) :
    ((updateFirst p f l).flatMap F).filter q = (l.flatMap F).filter q := by
  induction l with
  | nil => rfl
  | cons a l ih =>
    by_cases ha : p a = true
    · simp [updateFirst, ha, h a ha]
    · simp [updateFirst, ha, ih]

theorem nodup_map_middle {key : α → β} {l₁ l₂ : List α} :
    ((l₁ ++ a :: l₂).map key).Nodup ↔
      (∀ b ∈ l₁ ++ l₂, key b ≠ key a) ∧ ((l₁ ++ l₂).map key).Nodup := by
  rw [map_append, map_cons, nodup_middle, nodup_cons, ← map_append, mem_map]
  simp only [not_exists, not_and]

theorem nodup_map_concat {key : α → β} :
    ((l ++ [a]).map key).Nodup ↔ (∀ b ∈ l, key b ≠ key a) ∧ (l.map key).Nodup := by
  rw [nodup_map_middle, append_nil]

theorem split_of_getElem? {i : ℕ} (h : l[i]? = some a) :
    ∃ l₁ l₂, l = l₁ ++ a :: l₂ ∧ (∀ b, l.set i b = l₁ ++ b :: l₂) ∧ l.eraseIdx i = l₁ ++ l₂ := by
  obtain ⟨hi, rfl⟩ := getElem?_eq_some_iff.mp h
  refine ⟨l.take i, l.drop (i + 1), by simp, fun b => ?_, eraseIdx_eq_take_drop_succ l i⟩
  rw [set_eq_take_append_cons_drop, if_pos hi]

/-- `sort` followed by `dedup`: the distinct elements in increasing order. -/
def sortDedup [LE α] [DecidableLE α] [DecidableEq α] (l : List α) : List α :=
  (l.insertionSort fun a b => a ≤ b).dedup

@[simp] theorem mem_sortDedup [LE α] [DecidableLE α] [DecidableEq α] :
    a ∈ sortDedup l ↔ a ∈ l := by
  simp [sortDedup]

theorem nodup_sortDedup [LE α] [DecidableLE α] [DecidableEq α] (l : List α) :
    (sortDedup l).Nodup :=
  nodup_dedup _

theorem insertionSort_eq_iff [LinearOrder α] {l l' : List α} (h : l.Nodup) (h' : l'.Nodup) :
    l.insertionSort (· ≤ ·) = l'.insertionSort (· ≤ ·) ↔ ∀ a, a ∈ l ↔ a ∈ l' := by
  constructor
  · intro he a
    rw [← mem_insertionSort (· ≤ ·), he, mem_insertionSort]
  · intro hm
    have hperm : l.Perm l' := (perm_ext_iff_of_nodup h h').mpr hm
    have hsorted := (perm_insertionSort (· ≤ ·) l).trans
      (hperm.trans (perm_insertionSort (· ≤ ·) l').symm)
    exact hsorted.eq_of_sortedLE sortedLE_insertionSort sortedLE_insertionSort

/-- The elements that pass the test, or all of them if none does. -/
def filterOrAll (p : α → Bool) (l : List α) : List α :=
  let kept := l.filter p
  if kept.isEmpty then l else kept

theorem filterOrAll_sublist (p : α → Bool) (l : List α) : (l.filterOrAll p).Sublist l := by
  unfold filterOrAll
  dsimp only
  split_ifs
  · exact Sublist.refl l
  · exact filter_sublist

@[simp] theorem filterOrAll_eq_nil : l.filterOrAll p = [] ↔ l = [] := by
  unfold filterOrAll
  dsimp only
  split_ifs with h
  · rfl
  · rw [isEmpty_iff] at h
    exact ⟨fun hl => absurd hl h, fun hl => by simp [hl]⟩

theorem filterOrAll_eq_self (h : ∀ a ∈ l, p a = true) : l.filterOrAll p = l := by
  unfold filterOrAll
  dsimp only
  rw [filter_eq_self.mpr h, ite_self]

theorem map_filterOrAll (g : β → α) (p : α → Bool) (l : List β) :
    (l.filterOrAll fun b => p (g b)).map g = (l.map g).filterOrAll p := by
  unfold filterOrAll
  simp only [isEmpty_iff, filter_map, map_eq_nil_iff, Function.comp_def]
  split_ifs <;> rfl

theorem mem_filterOrAll (ha : a ∈ l) (hp : p a = true) {b : α} :
    b ∈ l.filterOrAll p ↔ b ∈ l ∧ p b = true := by
  have hne : (l.filter p).isEmpty = false := by
    rw [isEmpty_eq_false_iff]
    exact ne_nil_of_mem (mem_filter.mpr ⟨ha, hp⟩)
  simp [filterOrAll, hne]

theorem exists_take_of_mem_scanl {g : β → α → β} {b c : β} (h : c ∈ l.scanl g b) :
    ∃ i, c = (l.take i).foldl g b := by
  obtain ⟨i, hi, rfl⟩ := mem_iff_getElem.mp h
  exact ⟨i, getElem_scanl hi⟩

/-! ## Chunks and separators -/

theorem flatten_toChunks_go {n : ℕ} (acc : Array α) (done : Array (List α)) :
    (toChunks.go n l acc done).flatten = done.toList.flatten ++ acc.toList ++ l := by
  induction l generalizing acc done with
  | nil => simp [toChunks.go]
  | cons x l ih =>
    rw [toChunks.go]
    split
    · simp [ih]
    · simp [ih]

@[simp] theorem flatten_toChunks (n : ℕ) (l : List α) : (l.toChunks n).flatten = l := by
  cases l with
  | nil => cases n <;> rfl
  | cons x l =>
    cases n with
    | zero => simp [toChunks]
    | succ n => simpa [toChunks] using flatten_toChunks_go (n := n + 1) (l := l) #[x] #[]

theorem flatten_splitOn_intercalate [DecidableEq α] {ls : List (List α)} (h : a ∉ ls.flatten) :
    (([a].intercalate ls).splitOn a).flatten = ls.flatten := by
  cases ls with
  | nil => simp
  | cons l ls =>
    rw [splitOn_intercalate a _ (cons_ne_nil l ls)]
    intro l' hl' ha
    exact h (mem_flatten.mpr ⟨l', hl', ha⟩)

theorem mem_intercalate_singleton {b : α} {ls : List (List α)} (h : b ∈ [a].intercalate ls) :
    b = a ∨ b ∈ ls.flatten := by
  induction ls with
  | nil => simp at h
  | cons l ls ih =>
    cases ls with
    | nil => exact .inr (by simpa using h)
    | cons l' ls =>
      rw [intercalate_cons_cons] at h
      simp only [mem_append, mem_singleton] at h
      rcases h with (hl | ha) | hrest
      · exact .inr (by simp [hl])
      · exact .inl ha
      · rcases ih hrest with ha | hmem
        · exact .inl ha
        · exact .inr (by simp only [flatten_cons, mem_append] at hmem ⊢; tauto)

theorem dropSuffix?_append [DecidableEq α] (l s : List α) : (l ++ s).dropSuffix? s = some l :=
  dropSuffix?_eq_some_iff.mpr ⟨s, rfl, by simp⟩

/-- What stands behind a separator does not matter for a prefix that ends with it. -/
theorem prefix_before_separator {sep : α} {pre l x y : List α} (hpre : sep ∉ pre)
    (h : pre ++ [sep] <+: l ++ sep :: x) : pre ++ [sep] <+: l ++ sep :: y := by
  induction pre generalizing l with
  | nil =>
    cases l with
    | nil => simp
    | cons a l => simpa using h
  | cons b pre ih =>
    obtain ⟨hb, hpre⟩ := not_or.mp (mt mem_cons.mpr hpre)
    cases l with
    | nil =>
      obtain ⟨rfl, _⟩ := cons_prefix_cons.mp h
      exact absurd rfl hb
    | cons a l =>
      obtain ⟨rfl, hrest⟩ := cons_prefix_cons.mp h
      exact cons_prefix_cons.mpr ⟨rfl, ih hpre hrest⟩

/-- Matches that all agree are found in any order of the list. -/
theorem map_find?_perm {l' : List α} {g : α → β} (h : l.Perm l')
    (hp : ∀ a ∈ l, ∀ b ∈ l, p a = true → p b = true → g a = g b) :
    (l.find? p).map g = (l'.find? p).map g := by
  cases hl : l.find? p with
  | none =>
    have hl' : l'.find? p = none := by
      rw [find?_eq_none] at hl ⊢
      exact fun a ha => hl a (h.mem_iff.mpr ha)
    rw [hl']
  | some a =>
    cases hl' : l'.find? p with
    | none =>
      rw [find?_eq_none] at hl'
      exact absurd (find?_some hl) (hl' a (h.mem_iff.mp (mem_of_find?_eq_some hl)))
    | some b =>
      have hb : b ∈ l := h.mem_iff.mpr (mem_of_find?_eq_some hl')
      have hab := hp a (mem_of_find?_eq_some hl) b hb (find?_some hl) (find?_some hl')
      exact congrArg some hab

/-- The keys of the list are distinct and none has been seen before. -/
def DistinctFrom (key : α → β) (seen : List β) (l : List α) : Prop :=
  (∀ a ∈ l, key a ∉ seen) ∧ (l.map key).Nodup

variable {key : α → β} {seen : List β}

theorem distinctFrom_nil : DistinctFrom key [] l ↔ (l.map key).Nodup := by
  simp [DistinctFrom]

theorem distinctFrom_cons :
    DistinctFrom key seen (a :: l) ↔ key a ∉ seen ∧ DistinctFrom key (key a :: seen) l := by
  constructor
  · rintro ⟨hf, hn⟩
    rw [map_cons, nodup_cons] at hn
    refine ⟨hf a mem_cons_self, fun b hb hmem => ?_, hn.2⟩
    rcases mem_cons.mp hmem with he | hmem
    · exact hn.1 (he ▸ mem_map_of_mem hb)
    · exact hf b (mem_cons_of_mem _ hb) hmem
  · rintro ⟨ha, hf, hn⟩
    constructor
    · intro b hb
      rcases mem_cons.mp hb with rfl | hb
      · exact ha
      · exact fun hmem => hf b hb (mem_cons_of_mem _ hmem)
    · rw [map_cons, nodup_cons]
      refine ⟨fun hmem => ?_, hn⟩
      obtain ⟨b, hb, he⟩ := mem_map.mp hmem
      exact hf b hb (he ▸ mem_cons_self)

end List
