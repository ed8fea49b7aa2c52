import Downlevel.Archive.Zip
import Downlevel.Disk

/-!
# Jars on a disk

A jar is an archive file, a module file, which is an archive behind a header, or a folder.  What it
is follows from its path: folders are what they are, and module files have an extension of their
own.
-/

namespace Downlevel

/-- A jar on a disk, given by its path. -/
inductive JarFile where
  | archive (path : String)
  | moduleFile (path : String)
  | folder (path : String)
  deriving DecidableEq

namespace JarFile

/-- The last name in a path, if it is one that says something. -/
def lastName? (path : String) : Option String :=
  ((Disk.names path).filter fun name => name != "" && name != ".").getLast?

/-- What follows the last dot of a name that does not begin with it. -/
def extensionOf? (name : String) : Option String :=
  let reversed := name.toList.reverse
  match reversed.dropWhile (· ≠ '.') with
  | _ :: _ :: _ => some (String.ofList (reversed.takeWhile (· ≠ '.')).reverse)
  | _ => none

/-- The extension of the last name in a path. -/
def extension? (path : String) : Option String :=
  ((lastName? path).filter (· != "..")).bind extensionOf?

/-- The extension of module files. -/
def moduleExtension : String := "jmod"

/-- The jar at a path. -/
def ofPath (disk : Disk) (path : String) : JarFile :=
  if disk.isFolder path then folder path
  else if extension? path = some moduleExtension then moduleFile path
  else archive path

/-- The header of a module file. -/
def moduleHeader : Bytes := [0x4a, 0x4d, 0x01, 0x00]

/-- What follows the header in a module file. -/
def afterHeader (data : ByteArray) : Except Error ByteArray :=
  if (data.extract 0 moduleHeader.length).toList = moduleHeader then
    .ok (data.extract moduleHeader.length data.size)
  else fail (.archive .moduleHeader)

/-- The members of the archive file at a path. -/
def archiveMembers (disk : Disk) (path : String) : Except Error (List ArchiveMember) :=
  match disk.file? path with
  | some data => within (.archive (.notArchive .jar path)) (Zip.members data)
  | none =>
      if disk.isFolder path then
        within (.archive (.notArchive .jar path)) (fail (.archive .isDirectory))
      else within (.archive (.openFile path)) (fail (.archive .noSuchFile))

/-- The members of the module file at a path. -/
def moduleMembers (disk : Disk) (path : String) : Except Error (List ArchiveMember) := do
  match disk.file? path with
  | some data =>
      let rest ← within (.archive (.invalidModuleFile path)) (afterHeader data)
      within (.archive (.notArchive .jmod path)) (Zip.members rest)
  | none => within (.archive (.readFile path)) (fail (.archive .noSuchFile))

/-- The members of a jar. -/
def members (disk : Disk) : JarFile → Except Error (List ArchiveMember)
  | archive path => archiveMembers disk path
  | moduleFile path => moduleMembers disk path
  | folder path => .ok (((disk.folder? path).map disk.members).getD [])

/-- What the names of the files with classes begin with. -/
def classFront : JarFile → String
  | moduleFile _ => "classes/"
  | _ => ""

end JarFile

end Downlevel
