import Downlevel.Text.JavaString

/-!
# Strings that are written and read again

A unit is spelled in one, two or three bytes, and the bytes of each spelling lie in ranges of their
own.  A reader that takes unit by unit gives the units back.  The reader tries plain UTF-8 first,
however, so it also has to be seen that bytes which happen to be plain UTF-8 mean the same there:
surrogates and the unit zero are never spelled that way, and everything else is spelled alike.
-/

namespace Downlevel

namespace JavaString

/-- The bytes that a unit is written as: by the number of bytes, with the ranges of each. -/
inductive Spelling (unit : UInt16) : Bytes → Prop where
  | zero (h : unit = 0) : Spelling unit [0xc0, 0x80]
  | one (a : UInt8) (ha : 0 < a.toNat ∧ a.toNat < 0x80) (h : unit.toNat = a.toNat) :
      Spelling unit [a]
  | two (a b : UInt8) (ha : 0xc2 ≤ a.toNat ∧ a.toNat ≤ 0xdf) (hb : 0x80 ≤ b.toNat ∧ b.toNat ≤ 0xbf)
      (h : unit.toNat = a.toNat % 32 * 64 + b.toNat % 64) : Spelling unit [a, b]
  | three (a b c : UInt8) (ha : 0xe0 ≤ a.toNat ∧ a.toNat ≤ 0xef)
      (hb : 0x80 ≤ b.toNat ∧ b.toNat ≤ 0xbf) (hc : 0x80 ≤ c.toNat ∧ c.toNat ≤ 0xbf)
      (h : unit.toNat = (a.toNat % 16 * 64 + b.toNat % 64) * 64 + c.toNat % 64)
      (hlong : 0x800 ≤ unit.toNat) : Spelling unit [a, b, c]

/-- A unit is written in one of its spellings. -/
theorem spelling_encodeUnit (unit : UInt16) : Spelling unit (encodeUnit unit) := by
  have hunit := unit.toNat_lt
  unfold encodeUnit
  simp only
  split
  case isTrue h => exact .zero (UInt16.toNat_inj.mp h)
  case isFalse hzero =>
    split
    case isTrue hone =>
      have htoNat : unit.toNat.toUInt8.toNat = unit.toNat := UInt8.toNat_ofNat_of_lt' (by show _ < 256; omega)
      exact .one _ (by omega) htoNat.symm
    case isFalse hone =>
      split
      case isTrue htwo =>
        have ha : (0xc0 + unit.toNat / 64).toUInt8.toNat = 0xc0 + unit.toNat / 64 :=
          UInt8.toNat_ofNat_of_lt' (by show _ < 256; omega)
        have hb : (0x80 + unit.toNat % 64).toUInt8.toNat = 0x80 + unit.toNat % 64 :=
          UInt8.toNat_ofNat_of_lt' (by show _ < 256; omega)
        exact .two _ _ (by omega) (by omega) (by omega)
      case isFalse htwo =>
        have ha : (0xe0 + unit.toNat / 4096).toUInt8.toNat = 0xe0 + unit.toNat / 4096 :=
          UInt8.toNat_ofNat_of_lt' (by show _ < 256; omega)
        have hb : (0x80 + unit.toNat / 64 % 64).toUInt8.toNat = 0x80 + unit.toNat / 64 % 64 :=
          UInt8.toNat_ofNat_of_lt' (by show _ < 256; omega)
        have hc : (0x80 + unit.toNat % 64).toUInt8.toNat = 0x80 + unit.toNat % 64 :=
          UInt8.toNat_ofNat_of_lt' (by show _ < 256; omega)
        exact .three _ _ _ (by omega) (by omega) (by omega) (by omega) (by omega)

/-- A byte is a continuation exactly if it lies between two bounds. -/
theorem isContinuation_iff (byte : UInt8) :
    Utf8.isContinuation byte = true ↔ 0x80 ≤ byte.toNat ∧ byte.toNat ≤ 0xbf := by
  simp [Utf8.isContinuation, UInt8.le_iff_toNat_le]

/-- A byte lies between two bounds exactly if its number does. -/
theorem between_iff {low high byte : UInt8} :
    low ≤ byte ∧ byte ≤ high ↔ low.toNat ≤ byte.toNat ∧ byte.toNat ≤ high.toNat := by
  rw [UInt8.le_iff_toNat_le, UInt8.le_iff_toNat_le]

/-- The first byte of a spelling of several bytes is no spelling of its own. -/
theorem not_alone {a : UInt8} (h : 0x80 ≤ a.toNat) : ¬ a < 0x80 := by
  rw [UInt8.lt_iff_toNat_lt]
  exact Nat.not_lt.mpr h

/-- The first byte of three is not one of two. -/
theorem not_firstOfTwo {a : UInt8} (h : 0xe0 ≤ a.toNat) : ¬ a ≤ 0xdf := by
  rw [UInt8.le_iff_toNat_le]
  exact Nat.not_le.mpr h

/-- A byte is not one with a smaller number. -/
theorem ne_of_number_lt {a b : UInt8} (h : b.toNat < a.toNat) : a ≠ b := by
  rintro rfl
  exact absurd h (Nat.lt_irrefl _)

section Units

variable {unit : UInt16} {a b c : UInt8}

/-- A unit is what its number makes. -/
theorem toUInt16_eq {number : Nat} (h : unit.toNat = number) : number.toUInt16 = unit := by
  subst h
  exact UInt16.toNat_inj.mp (UInt16.toNat_ofNat_of_lt' unit.toNat_lt)

/-- Three bytes that spell a unit which two cannot spell are not too long for it. -/
theorem isOverlong_eq_false (hb : 0x80 ≤ b.toNat)
    (h : unit.toNat = (a.toNat % 16 * 64 + b.toNat % 64) * 64 + c.toNat % 64)
    (hlong : 0x800 ≤ unit.toNat) : isOverlong a b = false := by
  simp only [isOverlong, Bool.and_eq_false_imp, decide_eq_true_eq, decide_eq_false_iff_not,
    UInt8.lt_iff_toNat_lt]
  rintro rfl
  simp at h ⊢
  omega

variable (index : Nat) (done : List UInt16) (rest : Bytes)

/-- A unit of one byte is read. -/
theorem decodeUnits_one (ha : 0 < a.toNat ∧ a.toNat < 0x80) (h : unit.toNat = a.toNat) :
    decodeUnits index done (a :: rest) = decodeUnits (index + 1) (unit :: done) rest := by
  have hne : a ≠ 0 := ne_of_number_lt ha.1
  have hlt : a < 0x80 := UInt8.lt_iff_toNat_lt.mpr ha.2
  have hunit : a.toUInt16 = unit := UInt16.toNat_inj.mp (by simp [h])
  rw [decodeUnits.eq_def]
  simp [hne, hlt, hunit]

/-- A unit of two bytes is read. -/
theorem decodeUnits_two (ha : 0xc2 ≤ a.toNat ∧ a.toNat ≤ 0xdf)
    (hb : 0x80 ≤ b.toNat ∧ b.toNat ≤ 0xbf) (h : unit.toNat = a.toNat % 32 * 64 + b.toNat % 64) :
    decodeUnits index done (a :: b :: rest) = decodeUnits (index + 2) (unit :: done) rest := by
  have hne : a ≠ 0 := ne_of_number_lt (by show 0 < _; omega)
  have hzero : a ≠ 0xc0 := ne_of_number_lt (by show 0xc0 < _; omega)
  have hlt : ¬ a < 0x80 := not_alone (by omega)
  have hfirst : 0xc2 ≤ a ∧ a ≤ 0xdf := between_iff.mpr ha
  have hsecond := (isContinuation_iff b).mpr hb
  have hunit : (a.toNat % 32 * 64 + Utf8.low b).toUInt16 = unit := toUInt16_eq h
  rw [decodeUnits.eq_def]
  simp [hne, hzero, hlt, hfirst, hsecond, hunit]

/-- A unit of three bytes is read. -/
theorem decodeUnits_three (ha : 0xe0 ≤ a.toNat ∧ a.toNat ≤ 0xef)
    (hb : 0x80 ≤ b.toNat ∧ b.toNat ≤ 0xbf) (hc : 0x80 ≤ c.toNat ∧ c.toNat ≤ 0xbf)
    (h : unit.toNat = (a.toNat % 16 * 64 + b.toNat % 64) * 64 + c.toNat % 64)
    (hlong : 0x800 ≤ unit.toNat) :
    decodeUnits index done (a :: b :: c :: rest) =
      decodeUnits (index + 3) (unit :: done) rest := by
  have hne : a ≠ 0 := ne_of_number_lt (by show 0 < _; omega)
  have hzero : a ≠ 0xc0 := ne_of_number_lt (by show 0xc0 < _; omega)
  have hlt : ¬ a < 0x80 := not_alone (by omega)
  have htwo : ¬ a ≤ 0xdf := not_firstOfTwo ha.1
  have hfirst : 0xe0 ≤ a ∧ a ≤ 0xef := between_iff.mpr ha
  have hsecond := (isContinuation_iff b).mpr hb
  have hthird := (isContinuation_iff c).mpr hc
  have hshort : isOverlong a b = false := isOverlong_eq_false hb.1 h hlong
  have hunit : ((a.toNat % 16 * 64 + Utf8.low b) * 64 + Utf8.low c).toUInt16 = unit :=
    toUInt16_eq h
  rw [decodeUnits.eq_def]
  simp [hne, hzero, hlt, htwo, hfirst, hsecond, hthird, hshort, hunit]

end Units

/-- Unit by unit, the bytes of a unit are read as that unit. -/
theorem decodeUnits_spelling {unit : UInt16} {bytes : Bytes} (h : Spelling unit bytes)
    (index : Nat) (done : List UInt16) (rest : Bytes) :
    decodeUnits index done (bytes ++ rest) =
      decodeUnits (index + bytes.length) (unit :: done) rest := by
  cases h with
  | zero h =>
      subst h
      rw [List.cons_append, decodeUnits.eq_def]
      rfl
  | one a ha h => exact decodeUnits_one index done rest ha h
  | two a b ha hb h => exact decodeUnits_two index done rest ha hb h
  | three a b c ha hb hc h hlong => exact decodeUnits_three index done rest ha hb hc h hlong

/-- Unit by unit, the bytes of units are read as those units. -/
theorem decodeUnits_encode (units : List UInt16) (index : Nat) (done : List UInt16) :
    decodeUnits index done (units.flatMap encodeUnit) = .ok (done.reverse ++ units) := by
  induction units generalizing index done with
  | nil => simp [decodeUnits]
  | cons unit units ih =>
      rw [List.flatMap_cons, decodeUnits_spelling (spelling_encodeUnit unit), ih]
      simp

/-- The number of the character of a number that has one. -/
theorem toNat_ofNat {n : Nat} (h : n.isValidChar) : (Char.ofNat n).toNat = n := by
  unfold Char.ofNat
  rw [dif_pos h]
  rfl

/-- A unit that is no surrogate is a character of its own. -/
theorem unitsOf_ofNat {unit : UInt16} (h : unit.toNat < 0xd800 ∨ 0xdfff < unit.toNat) :
    unitsOf (Char.ofNat unit.toNat) = [unit] := by
  have hunit := unit.toNat_lt
  have hvalid : unit.toNat.isValidChar := by
    unfold Nat.isValidChar
    omega
  simp only [unitsOf, toNat_ofNat hvalid]
  rw [if_pos (by omega)]
  simp

/-- Plain UTF-8 has no second byte with which three bytes would spell a surrogate. -/
theorem le_of_isSecondOfThree {a b : UInt8} (h : Utf8.isSecondOfThree a b = true)
    (ha : a.toNat = 0xed) : b.toNat ≤ 0x9f := by
  obtain rfl : a = 0xed := UInt8.toNat_inj.mp ha
  simp [Utf8.isSecondOfThree, UInt8.le_iff_toNat_le] at h
  exact h.2

/-- As plain UTF-8, the bytes of a unit are read as the character of that unit alone, or they are
refused wherever they stand. -/
theorem decodeFrom_spelling {unit : UInt16} {bytes : Bytes} (h : Spelling unit bytes) :
    (unitsOf (Char.ofNat unit.toNat) = [unit] ∧ ∀ index done rest,
      Utf8.decodeFrom index done (bytes ++ rest) =
        Utf8.decodeFrom (index + bytes.length) (Char.ofNat unit.toNat :: done) rest) ∨
    ∀ index done rest, ∃ fault, Utf8.decodeFrom index done (bytes ++ rest) = .error fault := by
  cases h with
  | zero h =>
      right
      intro index done rest
      rw [List.cons_append, Utf8.decodeFrom.eq_def]
      exact ⟨_, rfl⟩
  | one a ha h =>
      left
      refine ⟨unitsOf_ofNat (by omega), fun index done rest => ?_⟩
      have hlt : a < 0x80 := UInt8.lt_iff_toNat_lt.mpr ha.2
      rw [List.cons_append, Utf8.decodeFrom.eq_def]
      simp [Utf8.following, hlt, h]
  | two a b ha hb h =>
      left
      refine ⟨unitsOf_ofNat (by omega), fun index done rest => ?_⟩
      have hlt : ¬ a < 0x80 := not_alone (by omega)
      have hfirst : 0xc2 ≤ a ∧ a ≤ 0xdf := between_iff.mpr ha
      have hb' := (isContinuation_iff b).mpr hb
      rw [List.cons_append, Utf8.decodeFrom.eq_def]
      simp [Utf8.following, hlt, hfirst, hb', h, Utf8.low]
  | three a b c ha hb hc h hlong =>
      have hlt : ¬ a < 0x80 := not_alone (by omega)
      have htwo : ¬ a ≤ 0xdf := not_firstOfTwo ha.1
      have hfirst : 0xe0 ≤ a ∧ a ≤ 0xef := between_iff.mpr ha
      have hc' := (isContinuation_iff c).mpr hc
      by_cases hsecond : Utf8.isSecondOfThree a b = true
      · left
        have hbound : a.toNat = 0xed → b.toNat ≤ 0x9f := le_of_isSecondOfThree hsecond
        have hno : unit.toNat < 0xd800 ∨ 0xdfff < unit.toNat := by omega
        refine ⟨unitsOf_ofNat hno, fun index done rest => ?_⟩
        rw [List.cons_append, Utf8.decodeFrom.eq_def]
        simp [Utf8.following, hlt, htwo, hfirst, hsecond, hc', h, Utf8.low]
      · right
        intro index done rest
        rw [List.cons_append, Utf8.decodeFrom.eq_def]
        simp [Utf8.following, hlt, htwo, hfirst, hsecond]

/-- If the bytes of units are plain UTF-8, they are read as characters with those units. -/
theorem decodeFrom_encode (units : List UInt16) {index : Nat} {done chars : List Char}
    (h : Utf8.decodeFrom index done (units.flatMap encodeUnit) = .ok chars) :
    ∃ own, chars = done.reverse ++ own ∧ own.flatMap unitsOf = units := by
  induction units generalizing index done with
  | nil =>
      simp only [List.flatMap_nil, Utf8.decodeFrom, Except.ok.injEq] at h
      exact ⟨[], by simp [h], rfl⟩
  | cons unit units ih =>
      rw [List.flatMap_cons] at h
      rcases decodeFrom_spelling (spelling_encodeUnit unit) with ⟨hunit, hstep⟩ | hfault
      · rw [hstep] at h
        obtain ⟨own, rfl, hown⟩ := ih h
        exact ⟨Char.ofNat unit.toNat :: own, by simp, by simp [hunit, hown]⟩
      · obtain ⟨fault, hfault⟩ := hfault index done (units.flatMap encodeUnit)
        rw [hfault] at h
        cases h

/-- **Strings are read as they were written.** -/
theorem decode_encode (string : JavaString) : decode string.encode = .ok string := by
  unfold decode
  cases hutf8 : Utf8.decode string.encode with
  | error fault =>
      simp only [encode, decodeUnits_encode, List.reverse_nil, List.nil_append]
      rfl
  | ok chars =>
      obtain ⟨own, rfl, hown⟩ := decodeFrom_encode string.units hutf8
      simp [hown]

/-- A unit is the first half of a character exactly if its number lies between two bounds. -/
theorem isHigh_iff (unit : UInt16) :
    isHigh unit = true ↔ 0xd800 ≤ unit.toNat ∧ unit.toNat ≤ 0xdbff := by
  simp [isHigh, UInt16.le_iff_toNat_le]

/-- So is the second half. -/
theorem isLow_iff (unit : UInt16) :
    isLow unit = true ↔ 0xdc00 ≤ unit.toNat ∧ unit.toNat ≤ 0xdfff := by
  simp [isLow, UInt16.le_iff_toNat_le]

/-- The halves of a character are joined to that character. -/
theorem join_halves {c : Char} (hbig : 0x10000 ≤ c.toNat) {high low : UInt16}
    (hhigh : high.toNat = 0xd800 + (c.toNat - 0x10000) / 1024)
    (hlow : low.toNat = 0xdc00 + (c.toNat - 0x10000) % 1024) : join high low = c := by
  have hnumber : 0x10000 + (0xd800 + (c.toNat - 0x10000) / 1024 - 0xd800) * 1024 +
      (0xdc00 + (c.toNat - 0x10000) % 1024 - 0xdc00) = c.toNat := by omega
  rw [join, hhigh, hlow, hnumber, Char.ofNat_toNat]

/-- The units of a character are read as that character. -/
theorem charsFrom_unitsOf (c : Char) (done : List Char) (rest : List UInt16) :
    charsFrom done (unitsOf c ++ rest) = charsFrom (c :: done) rest := by
  have hvalid : c.toNat.isValidChar := c.valid
  unfold Nat.isValidChar at hvalid
  unfold unitsOf
  simp only
  split
  case isTrue h =>
    have htoNat : c.toNat.toUInt16.toNat = c.toNat := UInt16.toNat_ofNat_of_lt' h
    have hhigh : ¬ isHigh c.toNat.toUInt16 = true := by
      rw [isHigh_iff, htoNat]
      omega
    have hlow : ¬ isLow c.toNat.toUInt16 = true := by
      rw [isLow_iff, htoNat]
      omega
    rw [List.singleton_append, charsFrom.eq_def]
    simp [hhigh, hlow, htoNat]
  case isFalse h =>
    have hfirst : (0xd800 + (c.toNat - 0x10000) / 1024).toUInt16.toNat =
        0xd800 + (c.toNat - 0x10000) / 1024 := UInt16.toNat_ofNat_of_lt' (by show _ < 65536; omega)
    have hsecond : (0xdc00 + (c.toNat - 0x10000) % 1024).toUInt16.toNat =
        0xdc00 + (c.toNat - 0x10000) % 1024 := UInt16.toNat_ofNat_of_lt' (by show _ < 65536; omega)
    generalize (0xd800 + (c.toNat - 0x10000) / 1024).toUInt16 = high at *
    generalize (0xdc00 + (c.toNat - 0x10000) % 1024).toUInt16 = low at *
    have hhigh : isHigh high = true := by
      rw [isHigh_iff, hfirst]
      omega
    have hlow : isLow low = true := by
      rw [isLow_iff, hsecond]
      omega
    have hjoin : join high low = c := join_halves (Nat.le_of_not_lt h) hfirst hsecond
    rw [List.cons_append, List.singleton_append, charsFrom.eq_def]
    simp [hhigh, hlow, hjoin]

/-- The units of characters are read as those characters. -/
theorem charsFrom_flatMap (chars done : List Char) :
    charsFrom done (chars.flatMap unitsOf) = some (done.reverse ++ chars) := by
  induction chars generalizing done with
  | nil => simp [charsFrom]
  | cons c chars ih =>
      rw [List.flatMap_cons, charsFrom_unitsOf, ih]
      simp

/-- **The units of a text are those of a text, and of no other.** -/
@[simp] theorem toString?_ofString (text : String) : (ofString text).toString? = some text := by
  simp [toString?, ofString, charsFrom_flatMap]

end JavaString

end Downlevel
