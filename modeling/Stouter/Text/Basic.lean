import Mathlib.Data.List.DropRight
import Mathlib.Data.Rat.Floor

/-! # Text in protocols

Comparisons that ignore ASCII case, trimming and splitting, as parsers of
header fields and host names use them, and numbers in decimal. Each function
on strings is given by what it does to the list of characters.
-/

namespace Text

variable {a b c : String}

/-- Letters of the ASCII range in lower case, all else as it is. -/
def lower (s : String) : String := String.ofList (s.toList.map Char.toLower)

@[simp] theorem toList_lower (s : String) : (lower s).toList = s.toList.map Char.toLower := by
  simp [lower]

theorem toLower_eq_self {c : Char} (h : ¬ (c.val ≥ 'A'.val ∧ c.val ≤ 'Z'.val)) :
    c.toLower = c := dif_neg h

theorem toLower_toLower (c : Char) : c.toLower.toLower = c.toLower := by
  apply toLower_eq_self
  by_cases h : c.val ≥ 'A'.val ∧ c.val ≤ 'Z'.val
  · have hval : c.toLower.val = c.val + 32 := congrArg Char.val (dif_pos h)
    rintro ⟨-, hle⟩
    obtain ⟨hlow, hhigh⟩ := h
    rw [hval] at hle
    simp only [UInt32.le_iff_toNat_le, UInt32.toNat_add, ge_iff_le] at hle hlow hhigh
    change 65 ≤ _ at hlow
    change _ ≤ 90 at hhigh
    change (_ + 32) % 2 ^ 32 ≤ 90 at hle
    omega
  · rwa [toLower_eq_self h]

@[simp] theorem lower_lower (s : String) : lower (lower s) = lower s := by
  have hmap : (s.toList.map Char.toLower).map Char.toLower = s.toList.map Char.toLower := by
    rw [List.map_map]
    exact List.map_congr_left fun c _ => toLower_toLower c
  rw [lower, toList_lower, hmap, lower]

def eqIgnoreCase (a b : String) : Bool := lower a == lower b

@[simp] theorem eqIgnoreCase_refl (a : String) : eqIgnoreCase a a = true := by
  simp [eqIgnoreCase]

theorem eqIgnoreCase_symm (h : eqIgnoreCase a b = true) : eqIgnoreCase b a = true := by
  simp only [eqIgnoreCase, beq_iff_eq] at h ⊢
  exact h.symm

theorem eqIgnoreCase_trans (h : eqIgnoreCase a b = true) (h' : eqIgnoreCase b c = true) :
    eqIgnoreCase a c = true := by
  simp only [eqIgnoreCase, beq_iff_eq] at h h' ⊢
  exact h.trans h'

/-- Without any number of the character at the end. -/
def trimEnd (c : Char) (s : String) : String := String.ofList (s.toList.rdropWhile (· == c))

theorem trimEnd_eq_iff {c : Char} {s t : String} :
    trimEnd c s = t ↔
      t.toList.getLast? ≠ some c ∧ ∃ k, s.toList = t.toList ++ List.replicate k c := by
  have hlist : ∀ l m : List Char, l.rdropWhile (· == c) = m ↔
      m.getLast? ≠ some c ∧ ∃ k, l = m ++ List.replicate k c := by
    intro l m
    constructor
    · rintro rfl
      constructor
      · intro hlast
        have hne : l.rdropWhile (· == c) ≠ [] := by
          intro hnil
          simp [hnil] at hlast
        rw [List.getLast?_eq_some_getLast hne, Option.some.injEq] at hlast
        exact List.rdropWhile_last_not _ _ hne (by simp [hlast])
      · refine ⟨(l.rtakeWhile (· == c)).length, ?_⟩
        have hall : l.rtakeWhile (· == c) = List.replicate (l.rtakeWhile (· == c)).length c :=
          List.eq_replicate_length.mpr fun x hx => by simpa using List.mem_rtakeWhile_imp hx
        rw [← hall, List.rdropWhile_append_rtakeWhile]
    · rintro ⟨hlast, k, rfl⟩
      induction k with
      | zero =>
        rw [List.replicate_zero, List.append_nil, List.rdropWhile_eq_self_iff]
        intro hne heq
        exact hlast (by rw [List.getLast?_eq_some_getLast hne, beq_iff_eq.mp heq])
      | succ k ih =>
        rw [List.replicate_succ', ← List.append_assoc,
          List.rdropWhile_concat_pos _ _ _ (by simp), ih]
  rw [← hlist, trimEnd]
  constructor
  · rintro rfl
    simp
  · intro h
    rw [h, String.ofList_toList]

def isBlank (c : Char) : Bool := c == ' ' || c == '\t'

def trim (s : String) : String :=
  String.ofList ((s.toList.dropWhile isBlank).rdropWhile isBlank)

theorem trim_of_no_blank {s : String} (h : ∀ c ∈ s.toList, isBlank c = false) : trim s = s := by
  have hfront : s.toList.dropWhile isBlank = s.toList := by
    cases hs : s.toList with
    | nil => rfl
    | cons c cs => exact List.dropWhile_cons_of_neg (by simp [h c (by simp [hs])])
  have hback : s.toList.rdropWhile isBlank = s.toList := by
    rw [List.rdropWhile_eq_self_iff]
    intro hne
    simp [h _ (List.getLast_mem hne)]
  rw [trim, hfront, hback, String.ofList_toList]

def split (sep : Char) (s : String) : List String := (s.toList.splitOn sep).map String.ofList

/-- The first part is followed by nothing or by a separator and the text of the others. -/
theorem split_eq_cons {sep : Char} {s part : String} {parts : List String} :
    split sep s = part :: parts ↔ sep ∉ part.toList ∧
      ((parts = [] ∧ s = part) ∨
        ∃ rest, s.toList = part.toList ++ sep :: rest.toList ∧ split sep rest = parts) := by
  constructor
  · intro h
    by_cases hs : sep ∈ s.toList
    · obtain ⟨front, back, heq, hfront⟩ := List.eq_append_cons_of_mem hs
      rw [split, heq, List.splitOn_append_cons_self_of_not_mem hfront, List.map_cons,
        List.cons.injEq] at h
      obtain ⟨rfl, rfl⟩ := h
      refine ⟨by simpa using hfront, .inr ⟨String.ofList back, by simpa using heq, ?_⟩⟩
      simp [split]
    · rw [split, List.splitOn_eq_singleton hs, List.map_singleton, List.cons.injEq,
        String.ofList_toList] at h
      obtain ⟨rfl, rfl⟩ := h
      exact ⟨hs, .inl ⟨rfl, rfl⟩⟩
  · rintro ⟨hpart, ⟨rfl, rfl⟩ | ⟨rest, heq, rfl⟩⟩
    · rw [split, List.splitOn_eq_singleton hpart, List.map_singleton, String.ofList_toList]
    · rw [split, heq, List.splitOn_append_cons_self_of_not_mem hpart, List.map_cons,
        String.ofList_toList, split]

theorem split_append {sep : Char} {part rest : String} (h : sep ∉ part.toList) :
    split sep (part ++ String.singleton sep ++ rest) = part :: split sep rest :=
  split_eq_cons.mpr ⟨h, .inr ⟨rest, by simp, rfl⟩⟩

theorem split_of_not_mem {sep : Char} {s : String} (h : sep ∉ s.toList) : split sep s = [s] :=
  split_eq_cons.mpr ⟨h, .inl ⟨rfl, rfl⟩⟩

/-! ## Decimal numbers -/

/-- The number spelled by a text that has digits only. -/
def decimal? (cs : List Char) : Option ℕ :=
  if cs ≠ [] ∧ cs.all Char.isDigit = true then some (Nat.ofDigitChars 10 cs 0) else none

def signed? : List Char → Option ℤ
  | '-' :: cs => (decimal? cs).map fun n : ℕ => -(n : ℤ)
  | '+' :: cs => (decimal? cs).map fun n : ℕ => (n : ℤ)
  | cs => (decimal? cs).map fun n : ℕ => (n : ℤ)

theorem decimal?_toDigits (n : ℕ) : decimal? (Nat.toDigits 10 n) = some n := by
  have hdigits : (Nat.toDigits 10 n).all Char.isDigit = true :=
    List.all_eq_true.mpr fun c => Nat.isDigit_of_mem_toDigits (by decide) (by decide)
  rw [decimal?, if_pos ⟨Nat.toDigits_ne_nil, hdigits⟩, Nat.ofDigitChars_ten_toDigits]

theorem toList_toString_nat (n : ℕ) : (toString n).toList = Nat.toDigits 10 n :=
  String.toList_ofList

theorem signed?_toDigits (n : ℕ) : signed? (Nat.toDigits 10 n) = some (n : ℤ) := by
  have hsigns : '-' ∉ Nat.toDigits 10 n ∧ '+' ∉ Nat.toDigits 10 n := by
    constructor <;> intro hmem <;>
      exact absurd (Nat.isDigit_of_mem_toDigits (by decide) (by decide) hmem) (by decide)
  unfold signed?
  split
  · next heq => exact absurd (heq ▸ List.mem_cons_self) hsigns.1
  · next heq => exact absurd (heq ▸ List.mem_cons_self) hsigns.2
  · rw [decimal?_toDigits]
    rfl

theorem signed?_toString (n : ℤ) : signed? (toString n).toList = some n := by
  rw [Int.toString_eq_repr, Int.repr_eq_if]
  split_ifs with hn
  · rw [show n.toNat.repr.toList = _ from toList_toString_nat _, signed?_toDigits,
      Int.toNat_of_nonneg hn]
  · rw [String.toList_append, show (-n).toNat.repr.toList = _ from toList_toString_nat _]
    have hsplit : signed? ("-".toList ++ Nat.toDigits 10 (-n).toNat) =
        (decimal? (Nat.toDigits 10 (-n).toNat)).map fun m : ℕ => -(m : ℤ) := rfl
    rw [hsplit, decimal?_toDigits, Option.map_some]
    congr 1
    omega

/-! ## Floating-point numbers

Formatted without an exponent and with as few digits as read back as the number.
-/

/-- The multiple of `10 ^ k` nearest to `v` among those that read as `v`, by its factor. -/
def decimalOf (reads : ℚ → Bool) (v : ℚ) (k : ℤ) : Option ℕ :=
  let lower := (v / 10 ^ k).floor.toNat
  let candidates := if v / 10 ^ k - lower < 1 / 2 then [lower, lower + 1] else [lower + 1, lower]
  candidates.find? fun d => reads (d * 10 ^ k)

/-- The decimal with the fewest digits that reads as the double `m * 2 ^ e`: its digits and the
exponent of their last. -/
def shortestDecimal (m : ℕ) (e : ℤ) : ℕ × ℤ :=
  let ulp : ℚ := 2 ^ e
  let v := m * ulp
  -- the doubles below a power of two are twice as close
  let low := v - (if m = 2 ^ 52 ∧ -1074 < e then ulp / 4 else ulp / 2)
  let high := v + ulp / 2
  -- halfway between two doubles the even one is read
  let reads := fun x => low < x && x < high || m % 2 == 0 && (x == low || x == high)
  let exponents := (List.range 633).map fun i => 308 - (i : ℤ)
  (exponents.findSome? fun k => (decimalOf reads v k).map (·, k)).getD (m, e)

/-- The text of `d * 10 ^ k`. -/
def displayDecimal (d : ℕ) (k : ℤ) : String :=
  if 0 ≤ k then toString d ++ String.ofList (List.replicate k.toNat '0')
  else
    let places := (-k).toNat
    let digits := (toString d).toList.leftpad (places + 1) '0'
    String.ofList (digits.rdrop places) ++ "." ++ String.ofList (digits.rtake places)

def displayF64 (x : Float) : String :=
  match x.toModel.unpack with
  | .notANumber => "NaN"
  | .infinity sign => signText sign ++ "inf"
  | .zero sign => signText sign ++ "0"
  | .finite sign m e _ =>
    let (digits, exponent) := shortestDecimal m e
    signText sign ++ displayDecimal digits exponent
where
  signText : Float.Model.UnpackedFloat.Sign → String
    | .positive => ""
    | .negative => "-"

end Text
