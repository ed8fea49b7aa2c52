import Std.Data.HashSet
import Downlevel.Archive.Basic
import Downlevel.Error

/-!
# Writing archives

Entries are written one after the other.  In front of a file come the directories that it is in,
each of them once.  No name can be written twice.
-/

namespace Downlevel

/-- An archive that is being written. -/
structure ArchiveWriter where
  /-- The entries, the last one first. -/
  entries : List ArchiveEntry := []
  /-- The names of the entries. -/
  names : Std.HashSet String := ∅
  /-- The directories that were written, without the slash at their end. -/
  directories : Std.HashSet String := ∅

namespace ArchiveWriter

/-- A name without the slashes at its end. -/
def trimSlashes (name : List Char) : List Char :=
  (name.reverse.dropWhile (· = '/')).reverse

/-- What stands in front of each slash of a name, the shortest first.  What stands in front of the
rest is collected in reverse in `before`. -/
def beforeSlashes (before : List Char) : List Char → List (List Char)
  | [] => []
  | c :: rest =>
      if c = '/' then before.reverse :: beforeSlashes (c :: before) rest
      else beforeSlashes (c :: before) rest

/-- The directories that something is in, the outermost first. -/
def ancestors (name : String) : List String :=
  ((beforeSlashes [] name.toList).map fun path => String.ofList (trimSlashes path)).filter
    fun path => !path.isEmpty

variable (writer : ArchiveWriter)

/-- Writes an entry, unless its name was written before. -/
def put (fault : ArchiveFault) (entry : ArchiveEntry) : Except Error ArchiveWriter :=
  if writer.names.contains entry.name then
    within (.archive fault) (fail (.archive .duplicateName))
  else
    .ok { writer with
      entries := entry :: writer.entries
      names := writer.names.insert entry.name }

/-- Writes a directory that was not written before, but not those around it. -/
def putDirectory (path : String) : Except Error ArchiveWriter := do
  if writer.directories.contains path then return writer
  else
    let writer ← writer.put (.addDirectory path) ⟨Archive.directoryName path, none⟩
    return { writer with directories := writer.directories.insert path }

/-- Writes directories that were not written before. -/
def putDirectories : List String → ArchiveWriter → Except Error ArchiveWriter
  | [], writer => .ok writer
  | path :: rest, writer => do putDirectories rest (← writer.putDirectory path)

/-- Writes a directory and those around it, as far as they were not written before. -/
def addDirectory (name : String) : Except Error ArchiveWriter :=
  let path := String.ofList (trimSlashes name.toList)
  if path.isEmpty then .ok writer else putDirectories (ancestors path ++ [path]) writer

/-- Writes a file and the directories around it. -/
def writeFile (name : String) (bytes : Bytes) : Except Error ArchiveWriter := do
  let writer ← putDirectories (ancestors name) writer
  writer.put (.startFile name) (Archive.entryOf name (some bytes))

/-- The archive that was written. -/
def finish : Archive :=
  ⟨writer.entries.reverse⟩

end ArchiveWriter

end Downlevel
