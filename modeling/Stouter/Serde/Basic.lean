import Mathlib.Data.String.Basic
import Stouter.Lists.Basic

/-! # Derived serialization

The data model behind derived serializers: values with structs as maps from
field names, in which a field may be skipped and a missing one takes its
default, and internally tagged enums, whose tag is one more entry. A codec
returns a value if what it reads from the serialized value is that value;
structs and variants do so field by field.
-/

namespace Serde

universe u

variable {α β : Type u}

inductive Value
  | null
  | bool (b : Bool)
  | uint (n : ℕ)
  | float (x : Float)
  | str (s : String)
  | seq (vs : List Value)
  | map (entries : List (String × Value))

abbrev Entries := List (String × Value)

structure Codec (α : Type u) where
  ser : α → Value
  de : Value → Option α

namespace Codec

/-- What is serialized from `x` is read back as `y`. -/
def Returns (c : Codec α) (x y : α) : Prop := c.de (c.ser x) = some y

def Lawful (c : Codec α) : Prop := ∀ x, c.Returns x x

def NonNull (c : Codec α) : Prop := ∀ x, c.ser x ≠ .null

/-! ## Plain values -/

def bool : Codec Bool where
  ser := .bool
  de
    | .bool b => some b
    | _ => none

def float : Codec Float where
  ser := .float
  de
    | .float x => some x
    | _ => none

def str : Codec String where
  ser := .str
  de
    | .str s => some s
    | _ => none

/-- Unsigned integers of some width: a number that does not fit is an error. -/
def uint (size : ℕ) (toNat : α → ℕ) (ofNat : ℕ → α) : Codec α where
  ser x := .uint (toNat x)
  de
    | .uint n => if n < size then some (ofNat n) else none
    | _ => none

def u16 : Codec UInt16 := uint UInt16.size UInt16.toNat UInt16.ofNat

def u32 : Codec UInt32 := uint UInt32.size UInt32.toNat UInt32.ofNat

def u64 : Codec UInt64 := uint UInt64.size UInt64.toNat UInt64.ofNat

/-- An enum whose variants carry nothing, by their names. -/
def unit [DecidableEq α] (name : α → String) (variants : List α) : Codec α where
  ser x := .str (name x)
  de
    | .str s => variants.find? (name · == s)
    | _ => none

theorem bool_lawful : bool.Lawful := fun _ => rfl

theorem float_lawful : float.Lawful := fun _ => rfl

theorem str_lawful : str.Lawful := fun _ => rfl

theorem u16_lawful : u16.Lawful := fun x => by
  simp [Returns, u16, uint, x.toNat_lt_size]

theorem u32_lawful : u32.Lawful := fun x => by
  simp [Returns, u32, uint, x.toNat_lt_size]

theorem u64_lawful : u64.Lawful := fun x => by
  simp [Returns, u64, uint, x.toNat_lt_size]

theorem str_nonNull : str.NonNull := by
  intro x h
  cases h

theorem uint_nonNull {size : ℕ} {toNat : α → ℕ} {ofNat : ℕ → α} :
    (uint size toNat ofNat).NonNull := by
  intro x h
  cases h

theorem unit_lawful [DecidableEq α] {name : α → String} {variants : List α}
    (hall : ∀ x, x ∈ variants) (hinj : ∀ x y, name x = name y → x = y) :
    (unit name variants).Lawful := by
  intro x
  show variants.find? (name · == name x) = some x
  obtain ⟨y, hy⟩ : ∃ y, variants.find? (name · == name x) = some y := by
    rw [← Option.isSome_iff_exists, List.find?_isSome]
    exact ⟨x, hall x, by simp⟩
  have hname := List.find?_some hy
  rw [hy, hinj y x (by simpa using hname)]

/-! ## Containers -/

def option (c : Codec α) : Codec (Option α) where
  ser
    | none => .null
    | some x => c.ser x
  de
    | .null => some none
    | v => (c.de v).map some

def list (c : Codec α) : Codec (List α) where
  ser xs := .seq (xs.map c.ser)
  de
    | .seq vs => vs.mapM c.de
    | _ => none

/-- Ordered maps between strings, written in key order. -/
def stringMap : Codec (Std.ExtTreeMap String String) where
  ser m := .map (m.toList.map fun e => (e.1, .str e.2))
  de
    | .map es => do
      let es ← es.mapM fun e => (str.de e.2).map (e.1, ·)
      return .ofList es
    | _ => none

theorem option_lawful {c : Codec α} (hc : c.Lawful) (hnull : c.NonNull) : (option c).Lawful := by
  intro x
  cases x with
  | none => rfl
  | some x =>
    have hx : c.de (c.ser x) = some x := hc x
    have hne := hnull x
    simp only [Returns, option]
    rw [hx, Option.map_some]

theorem list_returns {c : Codec α} {f : α → α} {xs : List α} (h : ∀ x ∈ xs, c.Returns x (f x)) :
    (list c).Returns xs (xs.map f) := by
  show (xs.map c.ser).mapM c.de = some (xs.map f)
  induction xs with
  | nil => rfl
  | cons x xs ih =>
    have hx : c.de (c.ser x) = some (f x) := h x List.mem_cons_self
    rw [List.map_cons, List.mapM_cons, hx, ih fun y hy => h y (List.mem_cons_of_mem x hy)]
    rfl

theorem list_lawful {c : Codec α} (hc : c.Lawful) : (list c).Lawful := by
  intro xs
  simpa using list_returns (f := id) fun x (_ : x ∈ xs) => hc x

theorem stringMap_lawful : stringMap.Lawful := by
  intro m
  have hread : (m.toList.map fun e => (e.1, Value.str e.2)).mapM
      (fun e => (str.de e.2).map (e.1, ·)) = some m.toList := by
    generalize m.toList = es
    induction es with
    | nil => rfl
    | cons e es ih =>
      rw [List.map_cons, List.mapM_cons, ih]
      rfl
  have hback : Std.ExtTreeMap.ofList m.toList = m := by
    apply Std.ExtTreeMap.ext_getElem?
    intro k
    cases hk : m[k]? with
    | none =>
      apply Std.ExtTreeMap.getElem?_ofList_of_contains_eq_false
      simpa using hk
    | some v =>
      exact Std.ExtTreeMap.getElem?_ofList_of_mem Std.ReflCmp.compare_self
        Std.ExtTreeMap.distinct_keys_toList (by simpa using hk)
  simp only [Returns, stringMap, hread]
  exact congrArg some hback

end Codec

/-! ## Structs -/

/-- The fields of a struct, in order, with the values of those that are not skipped. -/
abbrev Fields := List (String × Option Value)

def always (name : String) (c : Codec α) (x : α) : String × Option Value := (name, some (c.ser x))

def skipIf (skip : Bool) (name : String) (c : Codec α) (x : α) : String × Option Value :=
  (name, if skip then none else some (c.ser x))

/-- The entries written for a struct. -/
def present (fields : Fields) : Entries := fields.filterMap fun f => f.2.map (f.1, ·)

/-- The entry of a name, if there is one; a name that occurs twice is an error. -/
def field? (name : String) (es : Entries) : Option (Option Value) :=
  match es.filter (·.1 == name) with
  | [] => some none
  | [e] => some (some e.2)
  | _ => none

def required (c : Codec α) (name : String) (es : Entries) : Option α :=
  match field? name es with
  | some (some v) => c.de v
  | _ => none

def defaulted (c : Codec α) (value : α) (name : String) (es : Entries) : Option α :=
  match field? name es with
  | some (some v) => c.de v
  | some none => some value
  | none => none

def asMap : Value → Option Entries
  | .map es => some es
  | _ => none

/-- Each field is found as it was written. -/
def Holds (es : Entries) (fields : Fields) : Prop := ∀ f ∈ fields, field? f.1 es = some f.2

theorem filter_present (fields : Fields) (name : String) :
    (present fields).filter (·.1 == name) = present (fields.filter (·.1 == name)) := by
  induction fields with
  | nil => rfl
  | cons f fields ih =>
    rw [present] at ih ⊢
    obtain ⟨n, _ | v⟩ := f <;> by_cases hn : n = name <;> simp [hn, ih, present]

theorem holds_present (fields : Fields) (h : (fields.map Prod.fst).Nodup) :
    Holds (present fields) fields := by
  intro f hf
  obtain ⟨l₁, l₂, rfl⟩ := List.append_of_mem hf
  obtain ⟨hne, _⟩ := List.nodup_map_middle.mp h
  have hfilter : (l₁ ++ f :: l₂).filter (·.1 == f.1) = [f] := by
    have h₁ : l₁.filter (·.1 == f.1) = [] := by simpa using fun a v ha => hne (a, v) (by simp [ha])
    have h₂ : l₂.filter (·.1 == f.1) = [] := by simpa using fun a v ha => hne (a, v) (by simp [ha])
    simp [List.filter_append, h₁, h₂]
  rw [field?, filter_present, hfilter]
  obtain ⟨name, _ | v⟩ := f <;> rfl

theorem name_of_mem_present {fields : Fields} {e : String × Value} (h : e ∈ present fields) :
    e.1 ∈ fields.map Prod.fst := by
  obtain ⟨f, hf, he⟩ := List.mem_filterMap.mp h
  obtain ⟨v, _, rfl⟩ := Option.map_eq_some_iff.mp he
  exact List.mem_map_of_mem hf

theorem bind_read {x : Option α} {a : α} {f : α → Option β} {b : β} (hx : x = some a)
    (hf : f a = some b) : (x >>= f) = some b := by
  rw [hx]
  exact hf

variable {es : Entries} {c : Codec α} {name : String} {x y value : α}

theorem required_always (h : field? name es = some (always name c x).2) (hc : c.Returns x y) :
    required c name es = some y := by
  rw [required, h]
  exact hc

theorem defaulted_always (h : field? name es = some (always name c x).2) (hc : c.Returns x y) :
    defaulted c value name es = some y := by
  rw [defaulted, h]
  exact hc

/-- A skipped field comes back if it is skipped only at its default. -/
theorem defaulted_skipIf {skip : Bool} (h : field? name es = some (skipIf skip name c x).2)
    (hskip : skip = true → y = value) (hc : skip = false → c.Returns x y) :
    defaulted c value name es = some y := by
  rw [defaulted, h]
  cases skip with
  | true => rw [hskip rfl]; rfl
  | false => exact hc rfl

theorem defaulted_isNone {x : Option α}
    (h : field? name es = some (skipIf x.isNone name c.option x).2) (hc : c.Lawful)
    (hnull : c.NonNull) : defaulted c.option none name es = some x :=
  defaulted_skipIf h (by simp) fun _ => Codec.option_lawful hc hnull x

theorem defaulted_isEmpty {xs : List α}
    (h : field? name es = some (skipIf xs.isEmpty name c.list xs).2) (hc : c.Lawful) :
    defaulted c.list [] name es = some xs :=
  defaulted_skipIf h (by simp) fun _ => Codec.list_lawful hc xs

theorem defaulted_stringMap {m : Std.ExtTreeMap String String}
    (h : field? name es = some (skipIf m.isEmpty name .stringMap m).2) :
    defaulted .stringMap ∅ name es = some m :=
  defaulted_skipIf h (by simp) fun _ => Codec.stringMap_lawful m

/-! ## Internally tagged enums -/

/-- A variant: its name under the tag, then its fields. -/
def tagged (tag variant : String) (fields : Fields) : Value :=
  .map ((tag, .str variant) :: present fields)

def untag (tag : String) : Value → Option (String × Entries)
  | .map es =>
    match field? tag es with
    | some (some (.str variant)) => some (variant, es.filter (·.1 != tag))
    | _ => none
  | _ => none

theorem untag_tagged {tag variant : String} {fields : Fields} (h : tag ∉ fields.map Prod.fst) :
    untag tag (tagged tag variant fields) = some (variant, present fields) := by
  have hne : ∀ e ∈ present fields, e.1 ≠ tag := by
    intro e he heq
    exact h (heq ▸ name_of_mem_present he)
  have hentry : field? tag ((tag, .str variant) :: present fields) =
      some (some (.str variant)) := by
    have hnone : (present fields).filter (·.1 == tag) = [] := by
      simpa using fun a v he => hne (a, v) he
    simp [field?, hnone]
  have hrest : (present fields).filter (·.1 != tag) = present fields := by
    simpa using fun a v he => hne (a, v) he
  simp [untag, tagged, hentry, hrest]

end Serde
