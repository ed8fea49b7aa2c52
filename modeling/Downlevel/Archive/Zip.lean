import Downlevel.Archive.Member
import Downlevel.Archive.Packed.Bzip2
import Downlevel.Archive.Packed.Deflate
import Downlevel.Archive.Packed.Xz
import Downlevel.Archive.Packed.Zstd
import Downlevel.Archive.Zip.Word
import Downlevel.Text.Utf8

/-!
# Archives as files

An archive file holds its entries one after another, behind them a directory with a record for each,
and at its end a record that tells where the directory is.  Contents are written as they are;
compressed ones can be read.
-/

namespace Downlevel

namespace Zip

/-!
## Records of archive files

The directory of an archive file has a record for each entry: its name, how its contents are packed,
and where it is.  A name is in UTF-8 if a flag says so, and otherwise has one byte for each
character.  Extra fields behind the name may give it in UTF-8 all the same, and numbers that are too
large for the record itself.  If several records have one name, the last one counts, in the place of
the first.
-/

/-- The flag that says that a name is in UTF-8. -/
def utf8Flag : Nat := 0x0800

/-- A record of the directory. -/
structure Record where
  /-- The bytes that spell the name. -/
  rawName : Bytes
  name : String
  /-- How the contents are packed. -/
  method : Nat
  checksum : Nat
  packedSize : Nat
  size : Nat
  /-- Where the entry is. -/
  offset : Nat

/-- The name that bytes stand for, with the flags of the record. -/
def nameOf (flags : Nat) (bytes : Bytes) : String :=
  String.ofList <|
    if flags &&& utf8Flag = 0 then CodePage437.decode bytes else Utf8.decodeLossy bytes

namespace Record

/-! ### Extra fields -/

/-- The number in a record that says that the true one is in an extra field. -/
def elsewhere : Nat := 0xffffffff

/-- The kind of the extra field with large numbers. -/
def wideKind : Nat := 0x0001

/-- The kind of the extra field with the name in UTF-8. -/
def nameKind : Nat := 0x7075

/-- The numbers of a record that the field with large numbers may have, in their order there. -/
def numbers : List ((Record → Nat) × (Record → Nat → Record)) :=
  [(Record.size, fun record n => { record with size := n }),
   (Record.packedSize, fun record n => { record with packedSize := n }),
   (Record.offset, fun record n => { record with offset := n })]

/-- Takes those large numbers that the record lacks, or all of them, and gives what is behind them,
unless the bytes end before. -/
def takeNumbers (takesAll : Bool) :
    List ((Record → Nat) × (Record → Nat → Record)) → Record → Bytes → Record × Option Bytes
  | [], record, bytes => (record, some bytes)
  | (get, set) :: others, record, bytes =>
      if takesAll || get record = elsewhere then
        match takeWord 8 bytes with
        | none => (record, none)
        | some (n, behind) => takeNumbers takesAll others (set record n) behind
      else takeNumbers takesAll others record bytes

/-- A record with large numbers, and whether they are all there.  A field with fewer bytes than its
numbers take is refused. -/
def withNumbers (record : Record) (size : Nat) (bytes : Bytes) : Option (Record × Bool) :=
  match takeNumbers (24 ≤ size) numbers record bytes with
  | (record, none) => some (record, false)
  | (record, some behind) =>
      if behind.length + size < bytes.length then none else some (record, true)

/-- A record with a name in UTF-8, and whether that is all there.  The field has a byte for its
version and the checksum of the name that it is for, which has to agree. -/
def withName (record : Record) (size : Nat) (bytes : Bytes) : Option (Record × Bool) :=
  match (takeWord 1 bytes).bind fun taken => takeWord 4 taken.2 with
  | none => some (record, false)
  | some (checksum, behind) =>
      if size < 5 then none
      else if behind.length < size - 5 then some (record, false)
      else
        let name := behind.take (size - 5)
        match Utf8.decode name with
        | .ok text =>
            if (Crc32.ofBytes record.rawName).toNat = checksum then
              some ({ record with rawName := name, name := String.ofList text }, true)
            else none
        | .error _ => none

/-- A record with an extra field of a kind and a size, which is at the start of the given bytes, and
whether the field is all there.  Fields of other kinds have no bearing on it. -/
def withField (record : Record) (kind size : Nat) (bytes : Bytes) : Option (Record × Bool) :=
  if kind = wideKind then record.withNumbers size bytes
  else if kind = nameKind then record.withName size bytes
  else some (record, true)

/-- A record with extra fields, of which each begins with its kind and its size.  Where the bytes
end before a field does, there are no more of them. -/
def withFields (record : Record) (fields : Bytes) : Option Record :=
  match _hKind : takeWord 2 fields with
  | none => some record
  | some (kind, sized) =>
      match _hSize : takeWord 2 sized with
      | none => some record
      | some (size, rest) =>
          match record.withField kind size rest with
          | none => none
          | some (record, false) => some record
          | some (record, true) => withFields record (rest.drop size)
termination_by fields.length
decreasing_by
  have := length_takeWord _hKind
  have := length_takeWord _hSize
  simp only [List.length_drop]
  omega

/-! ### The directory -/

/-- Where the contents of the entry at an offset begin: behind its name and its extra fields. -/
def contentStart? (data : ByteArray) (offset : Nat) : Option Nat := do
  if (← word? data 4 offset) = entryMark then
    let nameSize ← word? data 2 (offset + 26)
    let extraSize ← word? data 2 (offset + 28)
    return offset + 30 + nameSize + extraSize
  else none

/-- Whether the entry of a record is there, and its contents begin in front of the directory. -/
def hasEntry (data : ByteArray) (directory : Nat) (record : Record) : Bool :=
  (contentStart? data record.offset).any (· ≤ directory)

/-- Reads the record at an offset, and tells where the next one is.  The entries are `shift` bytes
behind the offsets that the records give. -/
def read? (data : ByteArray) (shift start : Nat) : Option (Record × Nat) := do
  if (← word? data 4 start) = recordMark then
    let flags ← word? data 2 (start + 8)
    let nameSize ← word? data 2 (start + 28)
    let extraSize ← word? data 2 (start + 30)
    let commentSize ← word? data 2 (start + 32)
    let nameEnd := start + 46 + nameSize
    let next := nameEnd + extraSize + commentSize
    let rawName := (data.extract (start + 46) nameEnd).toList
    let plain : Record := {
      rawName := rawName
      name := nameOf flags rawName
      method := ← word? data 2 (start + 10)
      checksum := ← word? data 4 (start + 16)
      packedSize := ← word? data 4 (start + 20)
      size := ← word? data 4 (start + 24)
      offset := ← word? data 4 (start + 42) }
    let record ← plain.withFields (data.extract nameEnd (nameEnd + extraSize)).toList
    let moved := { record with offset := shift + record.offset }
    if next ≤ data.size then return (moved, next) else none
  else none

/-- Reads a number of records from an offset on.  The entry of each has to be there, with its
contents in front of the directory. -/
def readAll? (data : ByteArray) (shift directory : Nat) : Nat → Nat → Option (List Record)
  | 0, _ => some []
  | count + 1, start => do
      let (first, next) ← read? data shift start
      if first.hasEntry data directory then
        return first :: (← readAll? data shift directory count next)
      else none

/-- Puts a record behind others, or in the place of the one with its name. -/
def put (record : Record) : List Record → List Record
  | [] => [record]
  | first :: rest =>
      if first.name = record.name then record :: rest else first :: put record rest

/-- The records that count: of those with one name the last, in the place of the first. -/
def distinct (records : List Record) : List Record :=
  records.foldl (fun kept record => put record kept) []

end Record

/-!
## Directories of archive files

The last record of an archive file tells where the directory is and how many records it has.  A
comment may follow it, and anything at all behind that, so it is looked for from the end.  Other
bytes may stand in front of the archive: then the directory is behind the place that is given for
it, and every entry is as much behind its own.  Archives with very many or very distant entries have
a wide form of the last record, to which a pointer in front of the last record leads.
-/

/-- Where a directory is. -/
structure Directory where
  /-- The number of its records. -/
  count : Nat
  start : Nat
  /-- How many bytes stand in front of the archive. -/
  shift : Nat

namespace Directory

/-- The number of records that says that there is a wide form of the last record. -/
def countElsewhere : Nat := 0xffff

/-- The directory that the last record at an offset is about, by itself. -/
def ofEnd? (data : ByteArray) (stop : Nat) : Option Directory := do
  let disk ← word? data 2 (stop + 4)
  let directoryDisk ← word? data 2 (stop + 6)
  let count ← word? data 2 (stop + 8)
  let total ← word? data 2 (stop + 10)
  let given ← word? data 4 (stop + 16)
  if disk ≠ directoryDisk then none
  else if total = 0 then return ⟨count, given + (stop - given), stop - given⟩
  else
    let start ← firstMark? data recordMark given stop
    return ⟨count, start, start - given⟩

/-- The size of a record of the directory without its name and its extra fields. -/
def recordSize : Nat := 46

/-- Whether the wide form of the last record may be at an offset: it ends where the pointer to it
begins, names the same disk, and has room for its records in front of it. -/
def isWide (data : ByteArray) (pointer wide : Nat) : Bool :=
  hasMark data wideEndMark wide &&
    (do
      let size ← word? data 8 (wide + 4)
      let count ← word? data 8 (wide + 32)
      let start ← word? data 8 (wide + 48)
      let sameDisk := word? data 4 (wide + 20) = word? data 4 (pointer + 4)
      return 44 ≤ size && wide + size + 12 = pointer && sameDisk &&
        start + recordSize * count ≤ wide).getD false

/-- The directory that the wide form of the last record is about, to which a pointer leads. -/
def ofPointer? (data : ByteArray) (pointer : Nat) : Option Directory := do
  let given ← word? data 8 (pointer + 8)
  let disks ← word? data 4 (pointer + 16)
  let wide ← findFrom (isWide data pointer) (pointer - given) given
  let version ← word? data 2 (wide + 12)
  let neededVersion ← word? data 2 (wide + 14)
  let disk ← word? data 4 (wide + 16)
  let directoryDisk ← word? data 4 (wide + 20)
  let countHere ← word? data 8 (wide + 24)
  let count ← word? data 8 (wide + 32)
  let start ← word? data 8 (wide + 48)
  if disks ≤ 1 && disk = directoryDisk && countHere ≤ count && neededVersion ≤ version then
    return ⟨count, start + (wide - given), wide - given⟩
  else none

/-- The directory that the last record at an offset leads to.  If a number in it says so, and there
is a pointer in front of it, that leads to its wide form. -/
def ofOffset? (data : ByteArray) (stop : Nat) : Option Directory := do
  let total ← word? data 2 (stop + 10)
  let given ← word? data 4 (stop + 16)
  let commentSize ← word? data 2 (stop + 20)
  if stop + 22 + commentSize ≤ data.size then
    let isElsewhere := total = countElsewhere || given = Record.elsewhere
    if isElsewhere && 20 ≤ stop && hasMark data pointerMark (stop - 20) then
      ofPointer? data (stop - 20)
    else ofEnd? data stop
  else none

/-- The records that the last record at an offset leads to. -/
def recordsAt? (data : ByteArray) (stop : Nat) : Option (List Record) := do
  if hasMark data endMark stop then
    let directory ← ofOffset? data stop
    Record.readAll? data directory.shift directory.start directory.count directory.start
  else none

/-- The records that the last record below an offset leads to, passing by what only looks like
one. -/
def recordsBelow? (data : ByteArray) : Nat → Option (List Record)
  | 0 => none
  | stop + 1 =>
      match recordsAt? data stop with
      | some records => some records
      | none => recordsBelow? data stop

/-- The records that count in an archive file. -/
def records? (data : ByteArray) : Option (List Record) :=
  (recordsBelow? data data.size).map Record.distinct

end Directory

/-! ## Writing -/

/-- The version of the format that is needed to read an entry. -/
def formatVersion : Nat := 20

/-- The first day that an archive can name. -/
def firstDay : Nat := 0x21

/-- What an entry and its record in the directory have in common. -/
def commonFields (name content : Bytes) : Bytes :=
  wordBytes 2 formatVersion ++ wordBytes 2 utf8Flag ++ wordBytes 2 0 ++ wordBytes 2 0 ++
    wordBytes 2 firstDay ++ wordBytes 4 (Crc32.ofBytes content).toNat ++
    wordBytes 4 content.length ++ wordBytes 4 content.length ++ wordBytes 2 name.length ++
    wordBytes 2 0

/-- An entry. -/
def entryBytes (name content : Bytes) : Bytes :=
  wordBytes 4 entryMark ++ commonFields name content ++ name ++ content

/-- The record of the entry at an offset. -/
def recordBytes (offset : Nat) (name content : Bytes) : Bytes :=
  wordBytes 4 recordMark ++ wordBytes 2 formatVersion ++ commonFields name content ++
    wordBytes 2 0 ++ wordBytes 2 0 ++ wordBytes 2 0 ++ wordBytes 4 0 ++ wordBytes 4 offset ++ name

/-- The last record. -/
def endBytes (count directorySize directoryOffset : Nat) : Bytes :=
  wordBytes 4 endMark ++ wordBytes 2 0 ++ wordBytes 2 0 ++ wordBytes 2 count ++ wordBytes 2 count ++
    wordBytes 4 directorySize ++ wordBytes 4 directoryOffset ++ wordBytes 2 0

/-- Bytes behind others. -/
def append (data : ByteArray) (bytes : Bytes) : ByteArray :=
  bytes.foldl ByteArray.push data

/-- Writes entries behind `data` and their records behind `directory`. -/
def writeEntries : List ArchiveEntry → ByteArray → ByteArray → ByteArray × ByteArray
  | [], data, directory => (data, directory)
  | entry :: rest, data, directory =>
      let name := Utf8.encode entry.name
      let content := entry.content.getD []
      writeEntries rest (append data (entryBytes name content))
        (append directory (recordBytes data.size name content))

/-- An archive as a file. -/
def encode (archive : Archive) : ByteArray :=
  let (data, directory) := writeEntries archive.entries ByteArray.empty ByteArray.empty
  append (data ++ directory) (endBytes archive.entries.length directory.size data.size)

/-! ## Reading -/

/-- Unpacks what was packed with a method. -/
def unpack? (method : Nat) (packed : ByteArray) : Option ByteArray :=
  match method with
  | 0 => some packed
  | 8 => some (Packed.Deflate.unpack .plain packed)
  | 9 => some (Packed.Deflate.unpack .wide packed)
  | 12 => Packed.Bzip2.unpack? packed
  | 93 => Packed.Zstd.unpack? packed
  | 95 => Packed.Xz.unpack? packed
  | _ => none

/-- The contents of a file.  Packed bytes that are behind the end of the archive are not there. -/
def content? (data : ByteArray) (record : Record) : Option Bytes := do
  let start ← Record.contentStart? data record.offset
  let content ← unpack? record.method (data.extract start (start + record.packedSize))
  let bytes := content.toList
  if (Crc32.ofBytes bytes).toNat = record.checksum then return bytes else none

/-- The member that a record is about. -/
def memberOf (data : ByteArray) (record : Record) : ArchiveMember :=
  if Archive.isDirectoryName record.name then ⟨record.name, none⟩
  else
    ⟨record.name,
      some (Thunk.mk fun _ => orFail (.archive .brokenArchive) (content? data record))⟩

/-- The members of an archive file. -/
def members (data : ByteArray) : Except Error (List ArchiveMember) := do
  return (← orFail (.archive .brokenArchive) (Directory.records? data)).map (memberOf data)

end Zip

end Downlevel
