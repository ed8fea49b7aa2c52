import Downlevel.Proofs.Text

/-!
# Text that is written as UTF-8 is read again

A character is spelled in one to four bytes.  Each spelling is told from the others by its first byte,
and the reader, which takes one character after the other, comes to the end of a character just where
the writer did.

* `Utf8.decodeFrom_encodeChar` — one character, with any bytes behind it;
* `Utf8.decode_encode` — **a text is read from its bytes**.
-/

namespace Downlevel

namespace Utf8

/-- The bytes that a character is written as: by the number of bytes, with the ranges of each. -/
inductive Spelling (c : Char) : Bytes → Prop where
  | one (a : UInt8) (ha : a.toNat < 0x80) (h : c.toNat = a.toNat) : Spelling c [a]
  | two (a b : UInt8) (ha : 0xc2 ≤ a.toNat ∧ a.toNat ≤ 0xdf) (hb : 0x80 ≤ b.toNat ∧ b.toNat ≤ 0xbf)
      (h : c.toNat = a.toNat % 32 * 64 + b.toNat % 64) : Spelling c [a, b]
  | three (a b d : UInt8) (ha : 0xe0 ≤ a.toNat ∧ a.toNat ≤ 0xef) (hb : isSecondOfThree a b = true)
      (hd : 0x80 ≤ d.toNat ∧ d.toNat ≤ 0xbf)
      (h : c.toNat = (a.toNat % 16 * 64 + b.toNat % 64) * 64 + d.toNat % 64) : Spelling c [a, b, d]
  | four (a b d e : UInt8) (ha : 0xf0 ≤ a.toNat ∧ a.toNat ≤ 0xf4) (hb : isSecondOfFour a b = true)
      (hd : 0x80 ≤ d.toNat ∧ d.toNat ≤ 0xbf) (he : 0x80 ≤ e.toNat ∧ e.toNat ≤ 0xbf)
      (h : c.toNat = ((a.toNat % 8 * 64 + b.toNat % 64) * 64 + d.toNat % 64) * 64 + e.toNat % 64) :
      Spelling c [a, b, d, e]

/-- A small number as a byte. -/
theorem toNat_toUInt8 {n : Nat} (h : n < 256) : n.toUInt8.toNat = n :=
  UInt8.toNat_ofNat_of_lt' h

/-- The second of three bytes, in numbers. -/
theorem isSecondOfThree_iff (a b : UInt8) :
    isSecondOfThree a b = true ↔ 0x80 ≤ b.toNat ∧ b.toNat ≤ 0xbf ∧
      (a.toNat = 0xe0 → 0xa0 ≤ b.toNat) ∧ (a.toNat = 0xed → b.toNat ≤ 0x9f) := by
  have hfirst (n : UInt8) : a = n ↔ a.toNat = n.toNat := UInt8.toNat_inj.symm
  simp only [isSecondOfThree, isContinuation, hfirst, UInt8.le_iff_toNat_le, UInt8.reduceToNat]
  split
  · simp
    omega
  · split
    · simp
      omega
    · simp
      omega

/-- The second of four bytes, in numbers. -/
theorem isSecondOfFour_iff (a b : UInt8) :
    isSecondOfFour a b = true ↔ 0x80 ≤ b.toNat ∧ b.toNat ≤ 0xbf ∧
      (a.toNat = 0xf0 → 0x90 ≤ b.toNat) ∧ (a.toNat = 0xf4 → b.toNat ≤ 0x8f) := by
  have hfirst (n : UInt8) : a = n ↔ a.toNat = n.toNat := UInt8.toNat_inj.symm
  simp only [isSecondOfFour, isContinuation, hfirst, UInt8.le_iff_toNat_le, UInt8.reduceToNat]
  split
  · simp
    omega
  · split
    · simp
      omega
    · simp
      omega

/-- How many bytes follow a first byte, in numbers. -/
theorem following_eq (a : UInt8) : following a =
    if a.toNat < 0x80 then some 0
    else if 0xc2 ≤ a.toNat ∧ a.toNat ≤ 0xdf then some 1
    else if 0xe0 ≤ a.toNat ∧ a.toNat ≤ 0xef then some 2
    else if 0xf0 ≤ a.toNat ∧ a.toNat ≤ 0xf4 then some 3
    else none := by
  simp [following, UInt8.lt_iff_toNat_lt, UInt8.le_iff_toNat_le]

/-- A character is written in one of its spellings. -/
theorem spelling_encodeChar (c : Char) : Spelling c (encodeChar c) := by
  have hvalid : c.toNat.isValidChar := c.valid
  unfold Nat.isValidChar at hvalid
  unfold encodeChar
  dsimp only
  split
  case isTrue hone =>
    have ha := toNat_toUInt8 (n := c.toNat) (by omega)
    exact .one _ (by omega) ha.symm
  case isFalse hone =>
    split
    case isTrue htwo =>
      have ha := toNat_toUInt8 (n := 0xc0 + c.toNat / 64) (by omega)
      have hb := toNat_toUInt8 (n := 0x80 + c.toNat % 64) (by omega)
      exact .two _ _ (by omega) (by omega) (by omega)
    case isFalse htwo =>
      split
      case isTrue hthree =>
        have ha := toNat_toUInt8 (n := 0xe0 + c.toNat / 4096) (by omega)
        have hb := toNat_toUInt8 (n := 0x80 + c.toNat / 64 % 64) (by omega)
        have hd := toNat_toUInt8 (n := 0x80 + c.toNat % 64) (by omega)
        exact .three _ _ _ (by omega) ((isSecondOfThree_iff _ _).mpr (by omega)) (by omega)
          (by omega)
      case isFalse hthree =>
        have ha := toNat_toUInt8 (n := 0xf0 + c.toNat / 262144) (by omega)
        have hb := toNat_toUInt8 (n := 0x80 + c.toNat / 4096 % 64) (by omega)
        have hd := toNat_toUInt8 (n := 0x80 + c.toNat / 64 % 64) (by omega)
        have he := toNat_toUInt8 (n := 0x80 + c.toNat % 64) (by omega)
        exact .four _ _ _ _ (by omega) ((isSecondOfFour_iff _ _).mpr (by omega)) (by omega)
          (by omega) (by omega)

/-- **One character** is read from its bytes, whatever stands behind them. -/
theorem decodeFrom_encodeChar (c : Char) (index : Nat) (done : List Char) (rest : Bytes) :
    decodeFrom index done (encodeChar c ++ rest) =
      decodeFrom (index + (encodeChar c).length) (c :: done) rest := by
  have hcontinues {byte : UInt8} (h : 0x80 ≤ byte.toNat ∧ byte.toNat ≤ 0xbf) :
      isContinuation byte = true := (JavaString.isContinuation_iff byte).mpr h
  have hchar {n : Nat} (h : c.toNat = n) : Char.ofNat n = c := by rw [← h, Char.ofNat_toNat]
  generalize hbytes : encodeChar c = bytes
  have hspelling := hbytes ▸ spelling_encodeChar c
  cases hspelling with
  | one a ha h =>
      have hkind : following a = some 0 := by
        rw [following_eq, if_pos ha]
      rw [List.cons_append, decodeFrom.eq_def]
      simp [hkind, hchar h]
  | two a b ha hb h =>
      have hkind : following a = some 1 := by
        rw [following_eq, if_neg (by omega), if_pos ha]
      rw [List.cons_append, decodeFrom.eq_def]
      simp [hkind, hcontinues hb, low, hchar h]
  | three a b d ha hb hd h =>
      have hkind : following a = some 2 := by
        rw [following_eq, if_neg (by omega), if_neg (by omega), if_pos ha]
      rw [List.cons_append, decodeFrom.eq_def]
      simp [hkind, hb, hcontinues hd, low, hchar h]
  | four a b d e ha hb hd he h =>
      have hkind : following a = some 3 := by
        rw [following_eq, if_neg (by omega), if_neg (by omega), if_neg (by omega), if_pos ha]
      rw [List.cons_append, decodeFrom.eq_def]
      simp [hkind, hb, hcontinues hd, hcontinues he, low, hchar h]

/-- Characters are read from their bytes, behind those that were read before. -/
theorem decodeFrom_flatMap (text : List Char) (index : Nat) (done : List Char) :
    decodeFrom index done (text.flatMap encodeChar) = .ok (done.reverse ++ text) := by
  induction text generalizing index done with
  | nil => simp [decodeFrom]
  | cons c text ih =>
      rw [List.flatMap_cons, decodeFrom_encodeChar, ih]
      simp

/-- **A text is read from its bytes.** -/
theorem decode_encode (text : String) : decode (encode text) = .ok text.toList :=
  decodeFrom_flatMap text.toList 0 []

/-- A character takes one to four bytes. -/
theorem length_encodeChar (c : Char) : 1 ≤ (encodeChar c).length ∧ (encodeChar c).length ≤ 4 := by
  generalize hbytes : encodeChar c = bytes
  have hspelling := hbytes ▸ spelling_encodeChar c
  cases hspelling <;> simp

end Utf8

end Downlevel
