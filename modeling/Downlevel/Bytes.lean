/-!
# Bytes and big-endian words

A class file is a sequence of bytes in which every number is written with its most significant byte
first.  This file has the words of one, two, four and eight bytes, signed and unsigned, in both
directions: as the bytes that are written, and as the number that bytes stand for.
-/

namespace Downlevel

/-- A sequence of bytes. -/
abbrev Bytes := List UInt8

namespace Bytes

/-- The two bytes of a 16-bit word, most significant first. -/
def ofU16 (n : UInt16) : Bytes :=
  [(n >>> 8).toUInt8, n.toUInt8]

/-- The four bytes of a 32-bit word, most significant first. -/
def ofU32 (n : UInt32) : Bytes :=
  [(n >>> 24).toUInt8, (n >>> 16).toUInt8, (n >>> 8).toUInt8, n.toUInt8]

/-- The eight bytes of a 64-bit word, most significant first. -/
def ofU64 (n : UInt64) : Bytes :=
  ofU32 (n >>> 32).toUInt32 ++ ofU32 n.toUInt32

/-- The byte of a signed 8-bit number. -/
def ofI8 (n : Int8) : Bytes :=
  [n.toUInt8]

/-- The bytes of a signed 16-bit number, in two's complement. -/
def ofI16 (n : Int16) : Bytes :=
  ofU16 n.toUInt16

/-- The bytes of a signed 32-bit number, in two's complement. -/
def ofI32 (n : Int32) : Bytes :=
  ofU32 n.toUInt32

/-- The bytes of a signed 64-bit number, in two's complement. -/
def ofI64 (n : Int64) : Bytes :=
  ofU64 n.toUInt64

/-- The 16-bit word that two bytes stand for. -/
def toU16 (a b : UInt8) : UInt16 :=
  (a.toUInt16 <<< 8) ||| b.toUInt16

/-- The 32-bit word that four bytes stand for. -/
def toU32 (a b c d : UInt8) : UInt32 :=
  (a.toUInt32 <<< 24) ||| (b.toUInt32 <<< 16) ||| (c.toUInt32 <<< 8) ||| d.toUInt32

/-- The 64-bit word made of two 32-bit halves, the upper one first. -/
def toU64 (high low : UInt32) : UInt64 :=
  (high.toUInt64 <<< 32) ||| low.toUInt64

/-- A 16-bit word is two bytes long. -/
@[simp] theorem length_ofU16 (n : UInt16) : (ofU16 n).length = 2 := rfl

/-- A 32-bit word is four bytes long. -/
@[simp] theorem length_ofU32 (n : UInt32) : (ofU32 n).length = 4 := rfl

/-- A 64-bit word is eight bytes long. -/
@[simp] theorem length_ofU64 (n : UInt64) : (ofU64 n).length = 8 := rfl

end Bytes

end Downlevel
