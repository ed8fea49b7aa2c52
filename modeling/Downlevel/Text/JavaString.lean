import Downlevel.Text.Utf8

/-!
# Strings of 16-bit units

The strings of a class file are sequences of 16-bit units, among which surrogates may stand alone.
They are written in a form of UTF-8 of their own: every unit is spelled for itself, surrogates too,
and the unit zero takes two bytes, so that no zero byte occurs.  Readers are more lenient: bytes
that are plain UTF-8 are taken as such.
-/

namespace Downlevel

/-- A sequence of 16-bit units. -/
structure JavaString where
  units : List UInt16
  deriving DecidableEq, Hashable, Inhabited

namespace JavaString

/-- The units of a character: one, or two surrogates. -/
def unitsOf (c : Char) : List UInt16 :=
  let n := c.toNat
  if n < 0x10000 then [n.toUInt16]
  else [(0xd800 + (n - 0x10000) / 1024).toUInt16, (0xdc00 + (n - 0x10000) % 1024).toUInt16]

/-- The units of a text. -/
def ofString (text : String) : JavaString :=
  ⟨text.toList.flatMap unitsOf⟩

/-- Whether a unit is the first half of a character. -/
def isHigh (unit : UInt16) : Bool :=
  0xd800 ≤ unit && unit ≤ 0xdbff

/-- Whether a unit is the second half of a character. -/
def isLow (unit : UInt16) : Bool :=
  0xdc00 ≤ unit && unit ≤ 0xdfff

/-- The character of two surrogates. -/
def join (high low : UInt16) : Char :=
  Char.ofNat (0x10000 + (high.toNat - 0xd800) * 1024 + (low.toNat - 0xdc00))

/-- The characters of the units, behind those in `done` (last one first), or nothing if a surrogate
stands alone. -/
def charsFrom (done : List Char) : List UInt16 → Option (List Char)
  | [] => some done.reverse
  | unit :: rest =>
      if isHigh unit then
        match rest with
        | [] => none
        | next :: rest =>
            if isLow next then charsFrom (join unit next :: done) rest else none
      else if isLow unit then none
      else charsFrom (Char.ofNat unit.toNat :: done) rest

/-- The text of the units, if no surrogate stands alone. -/
def toString? (string : JavaString) : Option String :=
  (charsFrom [] string.units).map String.ofList

/-- The bytes of a unit. -/
def encodeUnit (unit : UInt16) : Bytes :=
  let n := unit.toNat
  if n = 0 then [0xc0, 0x80]
  else if n < 0x80 then [n.toUInt8]
  else if n < 0x800 then [(0xc0 + n / 64).toUInt8, (0x80 + n % 64).toUInt8]
  else [(0xe0 + n / 4096).toUInt8, (0x80 + n / 64 % 64).toUInt8, (0x80 + n % 64).toUInt8]

/-- The bytes of a string. -/
def encode (string : JavaString) : Bytes :=
  string.units.flatMap encodeUnit

/-- Whether the first two bytes of three spell a unit that two bytes can spell. -/
def isOverlong (first second : UInt8) : Bool :=
  first = 0xe0 && second < 0xa0

/-- The units of the bytes, behind those in `done` (last one first).  The bytes start at `index` of
the whole.  Every byte from `0x80` on needs another one behind it, so at the end of the data it is
cut off, whether it could start a unit or not.  That three bytes are too long for their unit shows
only when all of them are there. -/
def decodeUnits (index : Nat) (done : List UInt16) : Bytes → Except TextFault (List UInt16)
  | [] => .ok done.reverse
  | a :: rest =>
      if a = 0 then .error (.invalidSequence 1 index)
      else if a < 0x80 then decodeUnits (index + 1) (a.toUInt16 :: done) rest
      else
        match rest with
        | [] => .error (.incompleteSequence index)
        | b :: rest =>
            if a = 0xc0 && b = 0x80 then decodeUnits (index + 2) (0 :: done) rest
            else if 0xc2 ≤ a && a ≤ 0xdf && Utf8.isContinuation b then
              decodeUnits (index + 2) ((a.toNat % 32 * 64 + Utf8.low b).toUInt16 :: done) rest
            else if 0xe0 ≤ a && a ≤ 0xef && Utf8.isContinuation b then
              match rest with
              | [] => .error (.incompleteSequence index)
              | c :: rest =>
                  if !Utf8.isContinuation c then .error (.invalidSequence 2 index)
                  else if isOverlong a b then .error (.invalidSequence 1 index)
                  else
                    decodeUnits (index + 3)
                      (((a.toNat % 16 * 64 + Utf8.low b) * 64 + Utf8.low c).toUInt16 :: done) rest
            else .error (.invalidSequence 1 index)

/-- The string that bytes stand for: as plain UTF-8 if they are that, else unit by unit. -/
def decode (bytes : Bytes) : Except TextFault JavaString :=
  match Utf8.decode bytes with
  | .ok chars => .ok ⟨chars.flatMap unitsOf⟩
  | .error _ => (decodeUnits 0 [] bytes).map JavaString.mk

/-- A unit as messages show it if it is half of a character that lacks the other half. -/
def quotedUnit (unit : UInt16) : String :=
  "\\u\x7b" ++ Quoted.hexDigits unit.toNat ++ "\x7d"

/-- The units as messages show them between double quotes, behind the texts in `done` (last one
first). -/
def quotedFrom (done : List String) : List UInt16 → String
  | [] => String.join done.reverse
  | unit :: rest =>
      if isHigh unit then
        match rest with
        | [] => quotedFrom (quotedUnit unit :: done) []
        | next :: others =>
            if isLow next then quotedFrom (Quoted.escape '"' (join unit next) :: done) others
            else quotedFrom (quotedUnit unit :: done) (next :: others)
      else if isLow unit then quotedFrom (quotedUnit unit :: done) rest
      else quotedFrom (Quoted.escape '"' (Char.ofNat unit.toNat) :: done) rest

/-- A string between double quotes, as messages show it. -/
def quoted (string : JavaString) : String :=
  "\"" ++ quotedFrom [] string.units ++ "\""

end JavaString

end Downlevel
