import Downlevel.Bytes
import Downlevel.Fault.Reading

/-!
# Text as UTF-8

A character is one to four bytes long: the first byte says how many follow, and for some first
bytes the second one is limited further, so that no character has two spellings and no surrogate
has one.  Bytes that break these rules are refused with the place and the number of the bytes that
were still in order, or as cut off, if the data ends inside a character that was in order until
then.
-/

namespace Downlevel

namespace Utf8

/-- Whether a byte continues a character. -/
def isContinuation (byte : UInt8) : Bool :=
  0x80 ≤ byte && byte ≤ 0xbf

/-- The bytes that may follow the first byte of a character of three bytes. -/
def isSecondOfThree (first second : UInt8) : Bool :=
  if first = 0xe0 then 0xa0 ≤ second && second ≤ 0xbf
  else if first = 0xed then 0x80 ≤ second && second ≤ 0x9f
  else isContinuation second

/-- The bytes that may follow the first byte of a character of four bytes. -/
def isSecondOfFour (first second : UInt8) : Bool :=
  if first = 0xf0 then 0x90 ≤ second && second ≤ 0xbf
  else if first = 0xf4 then 0x80 ≤ second && second ≤ 0x8f
  else isContinuation second

/-- How many bytes follow a first byte, if it is one. -/
def following (first : UInt8) : Option Nat :=
  if first < 0x80 then some 0
  else if 0xc2 ≤ first && first ≤ 0xdf then some 1
  else if 0xe0 ≤ first && first ≤ 0xef then some 2
  else if 0xf0 ≤ first && first ≤ 0xf4 then some 3
  else none

/-- The six bits that a continuation byte adds. -/
def low (byte : UInt8) : Nat :=
  byte.toNat % 64

/-- The characters of the bytes, behind those in `done` (last one first).  The bytes start at
`index` of the whole. -/
def decodeFrom (index : Nat) (done : List Char) : Bytes → Except TextFault (List Char)
  | [] => .ok done.reverse
  | a :: rest =>
      match following a with
      | none => .error (.invalidSequence 1 index)
      | some 0 => decodeFrom (index + 1) (Char.ofNat a.toNat :: done) rest
      | some 1 =>
          match rest with
          | [] => .error (.incompleteSequence index)
          | b :: rest =>
              if isContinuation b then
                decodeFrom (index + 2) (Char.ofNat (a.toNat % 32 * 64 + low b) :: done) rest
              else .error (.invalidSequence 1 index)
      | some 2 =>
          match rest with
          | [] => .error (.incompleteSequence index)
          | b :: rest =>
              if isSecondOfThree a b then
                match rest with
                | [] => .error (.incompleteSequence index)
                | c :: rest =>
                    if isContinuation c then
                      decodeFrom (index + 3)
                        (Char.ofNat ((a.toNat % 16 * 64 + low b) * 64 + low c) :: done) rest
                    else .error (.invalidSequence 2 index)
              else .error (.invalidSequence 1 index)
      | some _ =>
          match rest with
          | [] => .error (.incompleteSequence index)
          | b :: rest =>
              if isSecondOfFour a b then
                match rest with
                | [] => .error (.incompleteSequence index)
                | c :: rest =>
                    if isContinuation c then
                      match rest with
                      | [] => .error (.incompleteSequence index)
                      | d :: rest =>
                          if isContinuation d then
                            decodeFrom (index + 4)
                              (Char.ofNat
                                (((a.toNat % 8 * 64 + low b) * 64 + low c) * 64 + low d) :: done)
                              rest
                          else .error (.invalidSequence 3 index)
                    else .error (.invalidSequence 2 index)
              else .error (.invalidSequence 1 index)

/-- The characters that bytes stand for. -/
def decode (bytes : Bytes) : Except TextFault (List Char) :=
  decodeFrom 0 [] bytes

/-- What stands for bytes that are no character. -/
def replacement : Char := Char.ofNat 0xfffd

/-- The characters of the first bytes of some, which are in order. -/
def charsUpTo (index : Nat) (bytes : Bytes) : List Char :=
  (decode (bytes.take index)).toOption.getD []

/-- The characters that bytes stand for, with a replacement for each part that is none: for a byte
that cannot be where it is, or for the bytes of a character that were in order until it broke
off. -/
def decodeLossy : Bytes → List Char
  | [] => []
  | first :: rest =>
      match decode (first :: rest) with
      | .ok text => text
      | .error (.invalidSequence size index) =>
          charsUpTo index (first :: rest) ++
            replacement :: decodeLossy (rest.drop (index + size - 1))
      | .error (.incompleteSequence index) => charsUpTo index (first :: rest) ++ [replacement]
      | .error _ => [replacement]
termination_by bytes => bytes.length
decreasing_by
  simp only [List.length_drop, List.length_cons]
  omega

/-- The bytes of a character. -/
def encodeChar (c : Char) : Bytes :=
  let n := c.toNat
  if n < 0x80 then [n.toUInt8]
  else if n < 0x800 then [(0xc0 + n / 64).toUInt8, (0x80 + n % 64).toUInt8]
  else if n < 0x10000 then
    [(0xe0 + n / 4096).toUInt8, (0x80 + n / 64 % 64).toUInt8, (0x80 + n % 64).toUInt8]
  else
    [(0xf0 + n / 262144).toUInt8, (0x80 + n / 4096 % 64).toUInt8, (0x80 + n / 64 % 64).toUInt8,
      (0x80 + n % 64).toUInt8]

/-- The bytes of a text. -/
def encode (text : String) : Bytes :=
  text.toList.flatMap encodeChar

end Utf8

end Downlevel
