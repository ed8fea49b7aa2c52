import Mathlib.Data.Nat.Bitwise
import Mathlib.Tactic.Ring
import Downlevel.Bytes
import Downlevel.Flags

/-!
# Words and flags that are written and read again

The bytes of a word stand for that word.  Bits are only met here: a word is the sum of its bytes,
each times its power of two, and with that everything is a matter of division and remainder.

A bit of a word of flags is set exactly if one of the meanings with that bit holds.  As no two
meanings of a kind share a bit, reading the word gives the flags back.
-/

namespace Downlevel

namespace Bytes

/-- A multiple of a power of two and something below that power have no bits in common. -/
theorem mul_two_pow_lor (a i : Nat) {b : Nat} (h : b < 2 ^ i) :
    a * 2 ^ i ||| b = a * 2 ^ i + b := by
  rw [← Nat.shiftLeft_eq, Nat.shiftLeft_add_eq_or_of_lt h]

/-- The number that two bytes stand for. -/
theorem toNat_toU16 (a b : UInt8) : (toU16 a b).toNat = a.toNat * 2 ^ 8 + b.toNat := by
  have ha := a.toNat_lt
  have hb := b.toNat_lt
  simp only [toU16, UInt16.toNat_or, UInt16.toNat_shiftLeft, UInt8.toNat_toUInt16,
    Nat.shiftLeft_eq, UInt16.reduceToNat, Nat.reduceMod]
  rw [Nat.mod_eq_of_lt (by omega), mul_two_pow_lor _ _ hb]

/-- The number that four bytes stand for. -/
theorem toNat_toU32 (a b c d : UInt8) :
    (toU32 a b c d).toNat =
      ((a.toNat * 2 ^ 8 + b.toNat) * 2 ^ 8 + c.toNat) * 2 ^ 8 + d.toNat := by
  have ha := a.toNat_lt
  have hb := b.toNat_lt
  have hc := c.toNat_lt
  have hd := d.toNat_lt
  have hfirst : a.toNat * 2 ^ 24 ||| b.toNat * 2 ^ 16 = (a.toNat * 2 ^ 8 + b.toNat) * 2 ^ 16 := by
    rw [mul_two_pow_lor _ _ (by omega)]
    ring
  have hsecond : (a.toNat * 2 ^ 8 + b.toNat) * 2 ^ 16 ||| c.toNat * 2 ^ 8 =
      ((a.toNat * 2 ^ 8 + b.toNat) * 2 ^ 8 + c.toNat) * 2 ^ 8 := by
    rw [mul_two_pow_lor _ _ (by omega)]
    ring
  simp only [toU32, UInt32.toNat_or, UInt32.toNat_shiftLeft, UInt8.toNat_toUInt32,
    Nat.shiftLeft_eq, UInt32.reduceToNat, Nat.reduceMod]
  rw [Nat.mod_eq_of_lt (by omega), Nat.mod_eq_of_lt (by omega), Nat.mod_eq_of_lt (by omega),
    hfirst, hsecond, mul_two_pow_lor _ _ hd]

/-- The bytes of a 16-bit word stand for it. -/
@[simp] theorem toU16_ofU16 (n : UInt16) : toU16 (n >>> 8).toUInt8 n.toUInt8 = n := by
  apply UInt16.toNat_inj.mp
  have hn := n.toNat_lt
  rw [toNat_toU16]
  simp only [UInt16.toNat_toUInt8, UInt16.toNat_shiftRight, Nat.shiftRight_eq_div_pow,
    UInt16.reduceToNat, Nat.reduceMod]
  omega

/-- The bytes of a 32-bit word stand for it. -/
@[simp] theorem toU32_ofU32 (n : UInt32) :
    toU32 (n >>> 24).toUInt8 (n >>> 16).toUInt8 (n >>> 8).toUInt8 n.toUInt8 = n := by
  apply UInt32.toNat_inj.mp
  have hn := n.toNat_lt
  rw [toNat_toU32]
  simp only [UInt32.toNat_toUInt8, UInt32.toNat_shiftRight, Nat.shiftRight_eq_div_pow,
    UInt32.reduceToNat, Nat.reduceMod]
  omega

/-- The halves of a 64-bit word make it up. -/
@[simp] theorem toU64_halves (n : UInt64) : toU64 (n >>> 32).toUInt32 n.toUInt32 = n := by
  apply UInt64.toNat_inj.mp
  have hn := n.toNat_lt
  simp only [toU64, UInt64.toNat_or, UInt64.toNat_shiftLeft, UInt32.toNat_toUInt64,
    Nat.shiftLeft_eq, UInt64.reduceToNat, UInt64.toNat_toUInt32, UInt64.toNat_shiftRight,
    Nat.shiftRight_eq_div_pow, Nat.reduceMod]
  rw [Nat.mod_eq_of_lt (by omega : n.toNat / 2 ^ 32 < 2 ^ 32), Nat.mod_eq_of_lt (by omega),
    mul_two_pow_lor _ _ (Nat.mod_lt _ (by decide))]
  omega

end Bytes

namespace Flag

/-- Whether a bit is set, told by the numbers of the words. -/
theorem isSet_eq_toNat (mask bits : UInt16) :
    isSet mask bits = (bits.toNat &&& mask.toNat != 0) := by
  rw [Bool.eq_iff_iff]
  simp only [isSet, bne_iff_ne, ne_eq, ← UInt16.toNat_inj, UInt16.toNat_and]
  rfl

/-- A bit is set in two words together if it is in one of them. -/
theorem isSet_or (mask a b : UInt16) : isSet mask (a ||| b) = (isSet mask a || isSet mask b) := by
  have hdistrib : (a ||| b) &&& mask = (a &&& mask) ||| (b &&& mask) := by
    apply UInt16.toBitVec_inj.mp
    simp [BitVec.and_or_distrib_right]
  rw [Bool.eq_iff_iff]
  simp only [isSet, hdistrib, bne_iff_ne, Bool.or_eq_true, ne_eq, UInt16.or_eq_zero_iff,
    Classical.not_and_iff_not_or_not]

/-- A bit is set in the word of flags if it was set before or belongs to a meaning that holds. -/
theorem isSet_foldl {α : Type} (mask bits : UInt16) (table : List (Flag α)) (flags : α) :
    isSet mask (table.foldl (fun bits flag => bits ||| (if flag.get flags then flag.mask else 0))
      bits) = (isSet mask bits || table.any fun flag => flag.get flags && isSet mask flag.mask) := by
  induction table generalizing bits with
  | nil => simp
  | cons flag table ih =>
      have hflag : isSet mask (if flag.get flags then flag.mask else 0) =
          (flag.get flags && isSet mask flag.mask) := by
        cases flag.get flags <;> simp [isSet]
      rw [List.foldl_cons, ih, isSet_or, hflag, List.any_cons, Bool.or_assoc]

/-- A bit is set in the word of flags exactly if it belongs to a meaning that holds. -/
theorem isSet_toBits {α : Type} (mask : UInt16) (table : List (Flag α)) (flags : α) :
    isSet mask (toBits table flags) =
      table.any fun flag => flag.get flags && isSet mask flag.mask := by
  rw [toBits, isSet_foldl]
  simp [isSet]

end Flag

open Flag

@[simp] theorem ClassAccess.ofBits_toBits (flags : ClassAccess) : ofBits flags.toBits = flags := by
  simp only [ofBits, toBits, isSet_toBits]
  simp [table, isSet_eq_toNat]

@[simp] theorem InnerClassFlags.ofBits_toBits (flags : InnerClassFlags) :
    ofBits flags.toBits = flags := by
  simp only [ofBits, toBits, isSet_toBits]
  simp [table, isSet_eq_toNat]

@[simp] theorem FieldAccess.ofBits_toBits (flags : FieldAccess) : ofBits flags.toBits = flags := by
  simp only [ofBits, toBits, isSet_toBits]
  simp [table, isSet_eq_toNat]

@[simp] theorem MethodAccess.ofBits_toBits (flags : MethodAccess) :
    ofBits flags.toBits = flags := by
  simp only [ofBits, toBits, isSet_toBits]
  simp [table, isSet_eq_toNat]

@[simp] theorem ParameterFlags.ofBits_toBits (flags : ParameterFlags) :
    ofBits flags.toBits = flags := by
  simp only [ofBits, toBits, isSet_toBits]
  simp [table, isSet_eq_toNat]

@[simp] theorem ModuleFlags.ofBits_toBits (flags : ModuleFlags) : ofBits flags.toBits = flags := by
  simp only [ofBits, toBits, isSet_toBits]
  simp [table, isSet_eq_toNat]

@[simp] theorem ModuleRequiresFlags.ofBits_toBits (flags : ModuleRequiresFlags) :
    ofBits flags.toBits = flags := by
  simp only [ofBits, toBits, isSet_toBits]
  simp [table, isSet_eq_toNat]

@[simp] theorem ModuleExportsFlags.ofBits_toBits (flags : ModuleExportsFlags) :
    ofBits flags.toBits = flags := by
  simp only [ofBits, toBits, isSet_toBits]
  simp [table, isSet_eq_toNat]

@[simp] theorem ModuleOpensFlags.ofBits_toBits (flags : ModuleOpensFlags) :
    ofBits flags.toBits = flags := by
  simp only [ofBits, toBits, isSet_toBits]
  simp [table, isSet_eq_toNat]

end Downlevel
