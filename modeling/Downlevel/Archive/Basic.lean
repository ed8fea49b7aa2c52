import Downlevel.Bytes
import Downlevel.Text.Affix

/-!
# Archives

An archive is a list of named entries: files with contents, and directories without.  The name of a
directory ends with a slash; one that ends with a backslash counts as the name of a directory too.
-/

namespace Downlevel

/-- An entry of an archive. -/
structure ArchiveEntry where
  name : String
  /-- What the file holds; directories hold nothing. -/
  content : Option Bytes
  deriving DecidableEq, Inhabited

/-- The kinds of entries. -/
inductive EntryKind where
  | directory
  /-- A file whose name says that it holds a class. -/
  | cls
  | other
  deriving DecidableEq

namespace ArchiveEntry

/-- The name of a file that holds a class ends with this. -/
def classSuffix : String := ".class"

/-- The kind of an entry. -/
def kind (entry : ArchiveEntry) : EntryKind :=
  match entry.content with
  | none => .directory
  | some _ => if Text.endsIn classSuffix entry.name then .cls else .other

end ArchiveEntry

/-- An archive. -/
structure Archive where
  entries : List ArchiveEntry := []
  deriving DecidableEq, Inhabited

namespace Archive

/-- Whether a name is that of a directory. -/
def isDirectoryName (name : String) : Bool :=
  Text.endsIn "/" name || Text.endsIn "\\" name

/-- A name as that of a directory. -/
def directoryName (name : String) : String :=
  if isDirectoryName name then name else name ++ "/"

/-- The entry that a file or, without contents, a directory makes in an archive.  A file with the
name of a directory is one. -/
def entryOf (name : String) (content : Option Bytes) : ArchiveEntry :=
  match content with
  | none => ⟨directoryName name, none⟩
  | some bytes => if isDirectoryName name then ⟨name, none⟩ else ⟨name, some bytes⟩

/-- The archive of some files and directories. -/
def ofFiles (files : List (String × Option Bytes)) : Archive :=
  ⟨files.map fun file => entryOf file.1 file.2⟩

variable (archive : Archive)

/-- The entry of a name. -/
def find? (name : String) : Option ArchiveEntry :=
  archive.entries.find? fun entry => entry.name = name

/-- The contents of the file of a name.  Directories have none. -/
def read? (name : String) : Option Bytes :=
  (archive.find? name).bind ArchiveEntry.content

/-- The names of the entries. -/
def names : List String :=
  archive.entries.map ArchiveEntry.name

end Archive

end Downlevel
