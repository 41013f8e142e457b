import Stouter.Wire.Tunnel

/-! # Text through lossy decoding

`String::from_utf8_lossy` replaces what is not UTF-8 and nothing else: the
bytes of a string are read back as that string. The bounds on the second byte
of a character are those that no encoded character breaks.
-/

namespace Stouter

variable {b b₁ b₂ b₃ : UInt8} {rest : List UInt8} {v : ℕ}

theorem isContinuation_of_toNat (h : 0x80 ≤ b.toNat) (h' : b.toNat ≤ 0xBF) :
    isContinuation b = true := by
  simp only [isContinuation, Bool.and_eq_true, decide_eq_true_eq, UInt8.le_iff_toNat_le]
  exact ⟨h, h'⟩

theorem utf8CharWidth_one (h : b.toNat < 0x80) : utf8CharWidth b = 1 :=
  if_pos (UInt8.lt_iff_toNat_lt.mpr h)

theorem utf8CharWidth_two (h : 0xC2 ≤ b.toNat) (h' : b.toNat ≤ 0xDF) : utf8CharWidth b = 2 := by
  simp only [utf8CharWidth, UInt8.lt_iff_toNat_lt, UInt8.le_iff_toNat_le, Bool.and_eq_true,
    decide_eq_true_eq, UInt8.reduceToNat]
  rw [if_neg (by omega), if_pos (by omega)]

theorem utf8CharWidth_three (h : 0xE0 ≤ b.toNat) (h' : b.toNat ≤ 0xEF) : utf8CharWidth b = 3 := by
  simp only [utf8CharWidth, UInt8.lt_iff_toNat_lt, UInt8.le_iff_toNat_le, Bool.and_eq_true,
    decide_eq_true_eq, UInt8.reduceToNat]
  rw [if_neg (by omega), if_neg (by omega), if_pos (by omega)]

theorem utf8CharWidth_four (h : 0xF0 ≤ b.toNat) (h' : b.toNat ≤ 0xF4) : utf8CharWidth b = 4 := by
  simp only [utf8CharWidth, UInt8.lt_iff_toNat_lt, UInt8.le_iff_toNat_le, Bool.and_eq_true,
    decide_eq_true_eq, UInt8.reduceToNat]
  rw [if_neg (by omega), if_neg (by omega), if_neg (by omega), if_pos (by omega)]

/-- A second byte that keeps clear of overlong forms, surrogates and values that are too large. -/
theorem isSecond_of_toNat (h : 0x80 ≤ b₁.toNat) (h' : b₁.toNat ≤ 0xBF)
    (hE0 : b.toNat = 0xE0 → 0xA0 ≤ b₁.toNat) (hED : b.toNat = 0xED → b₁.toNat ≤ 0x9F)
    (hF0 : b.toNat = 0xF0 → 0x90 ≤ b₁.toNat) (hF4 : b.toNat = 0xF4 → b₁.toNat ≤ 0x8F) :
    isSecond b b₁ = true := by
  simp only [isSecond, ← UInt8.toNat_inj, UInt8.reduceToNat]
  split_ifs with h₁ h₂ h₃ h₄
  · simp only [Bool.and_eq_true, decide_eq_true_eq, UInt8.le_iff_toNat_le, UInt8.reduceToNat]
    exact ⟨hE0 h₁, h'⟩
  · simp only [Bool.and_eq_true, decide_eq_true_eq, UInt8.le_iff_toNat_le, UInt8.reduceToNat]
    exact ⟨h, hED h₂⟩
  · simp only [Bool.and_eq_true, decide_eq_true_eq, UInt8.le_iff_toNat_le, UInt8.reduceToNat]
    exact ⟨hF0 h₃, h'⟩
  · simp only [Bool.and_eq_true, decide_eq_true_eq, UInt8.le_iff_toNat_le, UInt8.reduceToNat]
    exact ⟨h, hF4 h₄⟩
  · exact isContinuation_of_toNat h h'

theorem lossyChars_two (hw : utf8CharWidth b = 2) (h₁ : isContinuation b₁ = true) :
    lossyChars (b :: b₁ :: rest) = charOfBytes 5 b [b₁] :: lossyChars rest := by
  simp [lossyChars, hw, h₁]

theorem lossyChars_three (hw : utf8CharWidth b = 3) (h₁ : isSecond b b₁ = true)
    (h₂ : isContinuation b₂ = true) :
    lossyChars (b :: b₁ :: b₂ :: rest) = charOfBytes 4 b [b₁, b₂] :: lossyChars rest := by
  simp [lossyChars, hw, h₁, h₂]

theorem lossyChars_four (hw : utf8CharWidth b = 4) (h₁ : isSecond b b₁ = true)
    (h₂ : isContinuation b₂ = true) (h₃ : isContinuation b₃ = true) :
    lossyChars (b :: b₁ :: b₂ :: b₃ :: rest) =
      charOfBytes 3 b [b₁, b₂, b₃] :: lossyChars rest := by
  simp [lossyChars, hw, h₁, h₂, h₃]

theorem lossyChars_utf8EncodeChar (c : Char) (rest : List UInt8) :
    lossyChars (String.utf8EncodeChar c ++ rest) = c :: lossyChars rest := by
  have hvalid : c.val.toNat < 0xD800 ∨ 0xDFFF < c.val.toNat ∧ c.val.toNat < 0x110000 := c.valid
  have hchar : ∀ n, n = c.val.toNat → Char.ofNat n = c := by
    rintro n rfl
    exact Char.ofNat_toNat c
  unfold String.utf8EncodeChar
  dsimp only
  generalize c.val.toNat = v at hvalid hchar ⊢
  have htoNat : ∀ n < 256, (UInt8.ofNat n).toNat = n := by
    intro n hn
    rw [UInt8.toNat_ofNat', Nat.mod_eq_of_lt hn]
  split_ifs with h₁ h₂ h₃
  · have hb := htoNat v (by omega)
    rw [List.singleton_append, lossyChars]
    · congr 1
      refine hchar _ ?_
      rw [hb, List.foldl_nil]
      omega
    · exact utf8CharWidth_one (by omega)
  · have hb := htoNat (v / 64 % 32 + 0xC0) (by omega)
    have hb₁ := htoNat (v % 64 + 0x80) (by omega)
    rw [List.cons_append, List.singleton_append,
      lossyChars_two (utf8CharWidth_two (by omega) (by omega))
        (isContinuation_of_toNat (by omega) (by omega))]
    congr 1
    refine hchar _ ?_
    simp only [List.foldl_cons, List.foldl_nil, hb, hb₁]
    omega
  · have hb := htoNat (v / 4096 % 16 + 0xE0) (by omega)
    have hb₁ := htoNat (v / 64 % 64 + 0x80) (by omega)
    have hb₂ := htoNat (v % 64 + 0x80) (by omega)
    rw [List.cons_append, List.cons_append, List.singleton_append,
      lossyChars_three (utf8CharWidth_three (by omega) (by omega))
        (isSecond_of_toNat (by omega) (by omega) (by omega) (by omega) (by omega) (by omega))
        (isContinuation_of_toNat (by omega) (by omega))]
    congr 1
    refine hchar _ ?_
    simp only [List.foldl_cons, List.foldl_nil, hb, hb₁, hb₂]
    omega
  · have hb := htoNat (v / 262144 % 8 + 0xF0) (by omega)
    have hb₁ := htoNat (v / 4096 % 64 + 0x80) (by omega)
    have hb₂ := htoNat (v / 64 % 64 + 0x80) (by omega)
    have hb₃ := htoNat (v % 64 + 0x80) (by omega)
    rw [List.cons_append, List.cons_append, List.cons_append, List.singleton_append,
      lossyChars_four (utf8CharWidth_four (by omega) (by omega))
        (isSecond_of_toNat (by omega) (by omega) (by omega) (by omega) (by omega) (by omega))
        (isContinuation_of_toNat (by omega) (by omega))
        (isContinuation_of_toNat (by omega) (by omega))]
    congr 1
    refine hchar _ ?_
    simp only [List.foldl_cons, List.foldl_nil, hb, hb₁, hb₂, hb₃]
    omega

theorem asBytes_eq_flatMap (s : String) : asBytes s = s.toList.flatMap String.utf8EncodeChar := by
  rw [asBytes, ← String.ofList_toList (s := s), String.toByteArray_ofList, String.ofList_toList]
  simp [List.utf8Encode]

theorem lossyChars_flatMap (cs : List Char) :
    lossyChars (cs.flatMap String.utf8EncodeChar) = cs := by
  induction cs with
  | nil => rfl
  | cons c cs ih => rw [List.flatMap_cons, lossyChars_utf8EncodeChar, ih]

/-- The bytes of a string are read back as that string. -/
theorem fromUtf8Lossy_asBytes (s : String) : fromUtf8Lossy (asBytes s) = s := by
  rw [fromUtf8Lossy, asBytes_eq_flatMap, lossyChars_flatMap, String.ofList_toList]

end Stouter
