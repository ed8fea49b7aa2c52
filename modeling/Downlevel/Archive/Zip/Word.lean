import Downlevel.Bytes

/-!
# Words, checksums and names of archive files

Archive files hold numbers with the least significant byte first, and begin each of their parts with
a mark of four bytes.

For every file they keep the cyclic redundancy check of 32 bits: the remainder of the file, taken as a
polynomial over the field with two elements, modulo a fixed polynomial.  Bits come with the least
significant one first, so that the polynomial stands in reverse.

Archives that do not say otherwise spell names with one byte for each character: the lower half of
the bytes is ASCII, and the upper half has the letters, lines and signs of code page 437.
-/

namespace Downlevel

namespace Zip

/-- The bytes of a number, the least significant first. -/
def wordBytes : Nat → Nat → Bytes
  | 0, _ => []
  | width + 1, n => n.toUInt8 :: wordBytes width (n / 256)

/-- A number is written in as many bytes as it should have. -/
@[simp] theorem length_wordBytes (width n : Nat) : (wordBytes width n).length = width := by
  induction width generalizing n with
  | zero => rfl
  | succ width ih => simp [wordBytes, ih]

/-- The number that bytes at an offset stand for, the least significant first. -/
def word? (data : ByteArray) : Nat → Nat → Option Nat
  | 0, _ => some 0
  | width + 1, offset => do
      let low ← data[offset]?
      let high ← word? data width (offset + 1)
      return low.toNat + 256 * high

/-- The number that the first bytes of some stand for, the least significant first, and the bytes
behind them. -/
def takeWord : Nat → Bytes → Option (Nat × Bytes)
  | 0, bytes => some (0, bytes)
  | _ + 1, [] => none
  | width + 1, low :: rest => do
      let (high, rest) ← takeWord width rest
      return (low.toNat + 256 * high, rest)

/-- What is behind a number is shorter by its bytes. -/
theorem length_takeWord {width n : Nat} {bytes rest : Bytes}
    (h : takeWord width bytes = some (n, rest)) : rest.length + width = bytes.length := by
  induction width generalizing bytes n rest with
  | zero =>
      simp only [takeWord, Option.some.injEq, Prod.mk.injEq] at h
      simp [h.2]
  | succ width ih =>
      cases bytes with
      | nil => simp [takeWord] at h
      | cons low bytes =>
          simp only [takeWord, Option.bind_eq_bind, Option.bind_eq_some_iff] at h
          obtain ⟨⟨high, behind⟩, hBehind, h⟩ := h
          simp only [Option.pure_def, Option.some.injEq, Prod.mk.injEq] at h
          have := ih hBehind
          simp only [← h.2, List.length_cons]
          omega

/-- The mark in front of an entry. -/
def entryMark : Nat := 0x04034b50

/-- The mark in front of a record of the directory. -/
def recordMark : Nat := 0x02014b50

/-- The mark in front of the last record. -/
def endMark : Nat := 0x06054b50

/-- The mark in front of the wide form of the last record. -/
def wideEndMark : Nat := 0x06064b50

/-- The mark in front of the pointer to the wide form of the last record. -/
def pointerMark : Nat := 0x07064b50

/-- The first place from `offset` on at which something holds, looked for at `count` places. -/
def findFrom (holds : Nat → Bool) : Nat → Nat → Option Nat
  | 0, _ => none
  | count + 1, offset =>
      if holds offset then some offset else findFrom holds count (offset + 1)

/-- Whether there is a mark at an offset. -/
def hasMark (data : ByteArray) (mark offset : Nat) : Bool :=
  word? data 4 offset = some mark

/-- The first place in a range at which there is a mark with room for it. -/
def firstMark? (data : ByteArray) (mark start stop : Nat) : Option Nat :=
  findFrom (hasMark data mark) (stop - start - 3) start

end Zip

namespace Crc32

/-- The polynomial, without its leading term. -/
def polynomial : UInt32 := 0xedb88320

/-- The remainder after one more bit. -/
def shift (remainder : UInt32) : UInt32 :=
  if remainder &&& 1 = 1 then (remainder >>> 1) ^^^ polynomial else remainder >>> 1

/-- The remainder after one more byte. -/
def step (remainder : UInt32) (byte : UInt8) : UInt32 :=
  Nat.repeat shift 8 (remainder ^^^ byte.toUInt32)

/-- The checksum of bytes. -/
def ofBytes (bytes : List UInt8) : UInt32 :=
  ~~~ bytes.foldl step 0xffffffff

/-- The check value that the standard gives for the digits from 1 to 9. -/
example : ofBytes [49, 50, 51, 52, 53, 54, 55, 56, 57] = 0xcbf43926 := by cbv

end Crc32

namespace CodePage437

/-- The numbers of the characters of the bytes from `0x80` on. -/
def upperHalf : List Nat :=
  [0xc7, 0xfc, 0xe9, 0xe2, 0xe4, 0xe0, 0xe5, 0xe7, 0xea, 0xeb, 0xe8, 0xef, 0xee, 0xec, 0xc4, 0xc5,
   0xc9, 0xe6, 0xc6, 0xf4, 0xf6, 0xf2, 0xfb, 0xf9, 0xff, 0xd6, 0xdc, 0xa2, 0xa3, 0xa5, 0x20a7,
   0x192, 0xe1, 0xed, 0xf3, 0xfa, 0xf1, 0xd1, 0xaa, 0xba, 0xbf, 0x2310, 0xac, 0xbd, 0xbc, 0xa1,
   0xab, 0xbb, 0x2591, 0x2592, 0x2593, 0x2502, 0x2524, 0x2561, 0x2562, 0x2556, 0x2555, 0x2563,
   0x2551, 0x2557, 0x255d, 0x255c, 0x255b, 0x2510, 0x2514, 0x2534, 0x252c, 0x251c, 0x2500, 0x253c,
   0x255e, 0x255f, 0x255a, 0x2554, 0x2569, 0x2566, 0x2560, 0x2550, 0x256c, 0x2567, 0x2568, 0x2564,
   0x2565, 0x2559, 0x2558, 0x2552, 0x2553, 0x256b, 0x256a, 0x2518, 0x250c, 0x2588, 0x2584, 0x258c,
   0x2590, 0x2580, 0x3b1, 0xdf, 0x393, 0x3c0, 0x3a3, 0x3c3, 0xb5, 0x3c4, 0x3a6, 0x398, 0x3a9, 0x3b4,
   0x221e, 0x3c6, 0x3b5, 0x2229, 0x2261, 0xb1, 0x2265, 0x2264, 0x2320, 0x2321, 0xf7, 0x2248, 0xb0,
   0x2219, 0xb7, 0x221a, 0x207f, 0xb2, 0x25a0, 0xa0]

/-- The upper half is complete. -/
example : upperHalf.length = 128 := rfl

/-- The character of a byte. -/
def charOf (byte : UInt8) : Char :=
  if byte < 0x80 then Char.ofNat byte.toNat
  else Char.ofNat (upperHalf.getD (byte.toNat - 0x80) 0)

/-- The characters that bytes stand for. -/
def decode (bytes : Bytes) : List Char :=
  bytes.map charOf

/-- Every byte is a character. -/
@[simp] theorem length_decode (bytes : Bytes) : (decode bytes).length = bytes.length := by
  simp [decode]

end CodePage437

end Downlevel
