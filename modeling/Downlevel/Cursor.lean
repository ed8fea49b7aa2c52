import Downlevel.Bytes
import Downlevel.Error

/-!
# Reading bytes from the front

A cursor stands somewhere in a sequence of bytes: it knows how many bytes lie behind it and holds
the bytes in front of it.  `Parse` is the work of reading from a cursor.  A word that is not there
in full is an error that names the word; skipping never fails, so a cursor may be told to stand
beyond the end, where nothing but the empty sequence can be read.
-/

namespace Downlevel

/-- A place in a sequence of bytes. -/
structure Cursor where
  /-- How many bytes were passed. -/
  offset : Nat
  /-- The bytes still to be read. -/
  rest : Bytes

namespace Cursor

/-- The start of a sequence of bytes. -/
def start (bytes : Bytes) : Cursor :=
  ⟨0, bytes⟩

end Cursor

/-- Splits off exactly `n` items, or gives nothing if there are fewer.  The first `n` items are
collected in reverse in `done`. -/
def splitExactly {α : Type} : Nat → List α → List α → Option (List α × List α)
  | 0, done, items => some (done.reverse, items)
  | _ + 1, _, [] => none
  | n + 1, done, item :: items => splitExactly n (item :: done) items

/-- Work that reads from a cursor and moves it on, or fails. -/
abbrev Parse := StateT Cursor (Except Error)

namespace Parse

/-- Fails with a fault of class files. -/
def refuse {α : Type} (fault : ReadFault) : Parse α :=
  fun _ => fail (.read fault)

/-- Reading seen from a place around it. -/
def within {α : Type} (fault : ReadFault) (parse : Parse α) : Parse α :=
  fun cursor => Downlevel.within (.read fault) (parse cursor)

/-- Where the cursor stands. -/
def offset : Parse Nat :=
  fun cursor => .ok (cursor.offset, cursor)

/-- Whether all bytes were read. -/
def atEnd : Parse Bool :=
  fun cursor => .ok (cursor.rest.isEmpty, cursor)

/-- The next `n` bytes. -/
def take (n : Nat) : Parse Bytes :=
  fun cursor =>
    match splitExactly n [] cursor.rest with
    | some (bytes, rest) => .ok (bytes, ⟨cursor.offset + n, rest⟩)
    | none => fail (.read .endOfData)

/-- Passes over `n` bytes, whether they are there or not. -/
def skip (n : Nat) : Parse Unit :=
  fun cursor => .ok ((), ⟨cursor.offset + n, cursor.rest.drop n⟩)

/-- The error of a word that is not there in full. -/
def cutOff {α : Type} (word : String) : Except Error α :=
  .error ⟨[.read (.unreadable word), .read .endOfData]⟩

/-- The next byte, which is called `word` if it is missing. -/
def byte (word : String) : Parse UInt8 :=
  fun cursor =>
    match cursor.rest with
    | a :: rest => .ok (a, ⟨cursor.offset + 1, rest⟩)
    | _ => cutOff word

/-- The next two bytes as a word, which is called `word` if it is missing. -/
def pair (word : String) : Parse UInt16 :=
  fun cursor =>
    match cursor.rest with
    | a :: b :: rest => .ok (Bytes.toU16 a b, ⟨cursor.offset + 2, rest⟩)
    | _ => cutOff word

/-- The next four bytes as a word, which is called `word` if it is missing. -/
def quad (word : String) : Parse UInt32 :=
  fun cursor =>
    match cursor.rest with
    | a :: b :: c :: d :: rest => .ok (Bytes.toU32 a b c d, ⟨cursor.offset + 4, rest⟩)
    | _ => cutOff word

/-- The next eight bytes as a word, which is called `word` if it is missing. -/
def octet (word : String) : Parse UInt64 :=
  fun cursor =>
    match cursor.rest with
    | a :: b :: c :: d :: e :: f :: g :: h :: rest =>
        .ok (Bytes.toU64 (Bytes.toU32 a b c d) (Bytes.toU32 e f g h), ⟨cursor.offset + 8, rest⟩)
    | _ => cutOff word

/-- An unsigned 8-bit number. -/
def u8 : Parse UInt8 := byte "u8"

/-- An unsigned 16-bit number. -/
def u16 : Parse UInt16 := pair "u16"

/-- An unsigned 32-bit number. -/
def u32 : Parse UInt32 := quad "u32"

/-- A signed 8-bit number. -/
def i8 : Parse Int8 := do return (← byte "i8").toInt8

/-- A signed 16-bit number. -/
def i16 : Parse Int16 := do return (← pair "i16").toInt16

/-- A signed 32-bit number. -/
def i32 : Parse Int32 := do return (← quad "i32").toInt32

/-- A signed 64-bit number. -/
def i64 : Parse Int64 := do return (← octet "i64").toInt64

/-- Reads `n` items, one after the other, behind those already in `done` (last one first). -/
def repeatFrom {α : Type} (item : Parse α) : Nat → List α → Parse (List α)
  | 0, done => pure done.reverse
  | n + 1, done => do
      let value ← item
      repeatFrom item n (value :: done)

/-- Reads `n` items, one after the other. -/
def times {α : Type} (n : Nat) (item : Parse α) : Parse (List α) :=
  repeatFrom item n []

/-- A list with its length in front, as a 16-bit number. -/
def listOf {α : Type} (item : Parse α) : Parse (List α) := do
  let count ← u16
  times count.toNat item

/-- A list with its length in front, as an 8-bit number. -/
def shortListOf {α : Type} (item : Parse α) : Parse (List α) := do
  let count ← u8
  times count.toNat item

end Parse

end Downlevel
