import Downlevel.Archive.Member
import Downlevel.Archive.Writer
import Downlevel.Converter
import Downlevel.Manifest
import Downlevel.Services

/-!
# Converting jars

A jar is converted entry by entry: the manifest comes first, classes are brought down to the target,
and everything else is copied.  Each entry is read when its turn comes, so that what went wrong
before is told first.  A release without modules knows nothing of module descriptions.  In front of
it the description of the jar's module is taken out, and what it says goes into the manifest and
into the listings of services, which come last.
-/

namespace Downlevel

namespace Jar

/-- The name of the manifest. -/
def manifestName : String := "META-INF/MANIFEST.MF"

/-- The name of the description of the module. -/
def moduleInfoName : String := "module-info.class"

/-- The first release with modules. -/
def firstWithModules : Nat := 9

/-- The manifest of a jar.  Jars with several versions of their classes are refused. -/
def manifest (jar : List ArchiveMember) : Except Error Manifest := do
  let manifest ←
    match ← ArchiveMember.readFrom jar manifestName with
    | some bytes => within (.archive .manifest) (Manifest.ofBytes bytes)
    | none => .ok {}
  if manifest.isMultiRelease then fail (.archive .multiRelease) else return manifest

/-- A manifest that also says what the description of a module says. -/
def withModule (cls : ClassFile) (info : ModuleInfo) (manifest : Manifest) : Manifest :=
  let named := manifest.insert "Automatic-Module-Name" info.name
  match cls.moduleMainClass with
  | some main =>
      if named.contains "Main-Class" then named else named.insert "Main-Class" main.binary
  | none => named

/-- The services that a module provides. -/
def servicesOf (info : ModuleInfo) : Services :=
  info.provided.foldl
    (fun services provided =>
      provided.providers.foldl
        (fun services provider => services.add provided.service.binary provider.binary) services)
    {}

/-- The manifest and the services of a jar without the description of its module. -/
def withoutModule (jar : List ArchiveMember) (manifest : Manifest) :
    Task Session (Manifest × Services) := do
  match ← (ArchiveMember.readFrom jar moduleInfoName : Except Error (Option Bytes)) with
  | none => return (manifest, {})
  | some bytes =>
      Task.within (.archive .moduleInfo) do
        let cls ← (ClassFile.ofBytes bytes : Except Error ClassFile)
        match cls.moduleInfo with
        | none => (fail (.archive .noModuleAttribute) : Except Error (Manifest × Services))
        | some info =>
            Task.note (.automaticModule info.name)
            return (withModule cls info manifest, servicesOf info)

/-- A jar that is being converted. -/
structure Draft where
  writer : ArchiveWriter
  /-- The services found so far, if the target does not have modules. -/
  services : Option Services
  /-- Whether nothing was missing in the classes so far. -/
  passed : Bool

namespace Draft

variable (draft : Draft)

/-- Writes a file. -/
def write (name : String) (bytes : Bytes) : Except Error Draft := do
  return { draft with writer := ← draft.writer.writeFile name bytes }

/-- Whether a file holds a class that can be converted. -/
def isClass (name : String) : Bool :=
  let simple := String.ofList ((Text.splitSlashes name.toList).getLastD [])
  Text.endsIn ArchiveEntry.classSuffix simple && simple != moduleInfoName

/-- Converts or copies a file. -/
def addFile (converter : Converter) (supers : SuperClasses Session) (name : String)
    (bytes : Bytes) : Task Session Draft := do
  if isClass name then
    let converted ←
      Task.within (.archive (.convertingEntry name)) (converter.convertBytes supers bytes)
    match converted with
    | .unchanged => draft.write name bytes
    | .renewed converted passed =>
        ({ draft with passed := draft.passed && passed } : Draft).write name converted
  else draft.write name bytes

/-- The text of a listing of services. -/
def listingText (name : String) (bytes : Bytes) : Except Error String :=
  within (.archive (.listingNotText name))
    (((Utf8.decode bytes).mapError fun fault => Error.of (.text fault)).map String.ofList)

/-- Takes over an entry with what it holds. -/
def addEntry (converter : Converter) (supers : SuperClasses Session) (entry : ArchiveEntry) :
    Task Session Draft := do
  match entry.content, draft.services with
  | none, _ =>
      let writer ← (draft.writer.addDirectory entry.name : Except Error ArchiveWriter)
      return { draft with writer := writer }
  | some bytes, none => draft.addFile converter supers entry.name bytes
  | some bytes, some services =>
      if entry.name = moduleInfoName then return draft
      else
        match Services.serviceOf? entry.name with
        | some service =>
            let listing ← (listingText entry.name bytes : Except Error String)
            return { draft with services := some (services.addListing service listing) }
        | none => draft.addFile converter supers entry.name bytes

/-- Takes over a member.  The manifest is there already. -/
def addMember (converter : Converter) (supers : SuperClasses Session) (member : ArchiveMember) :
    Task Session Draft := do
  if member.name = manifestName then return draft
  else
    let entry ← (within (.archive (.readEntry member.name)) member.load : Except Error ArchiveEntry)
    draft.addEntry converter supers entry

/-- Takes over members. -/
def addMembers (converter : Converter) (supers : SuperClasses Session) :
    List ArchiveMember → Draft → Task Session Draft
  | [], draft => return draft
  | member :: rest, draft => do
      addMembers converter supers rest (← draft.addMember converter supers member)

/-- Writes files with texts. -/
def writeTexts : List (String × String) → Draft → Except Error Draft
  | [], draft => .ok draft
  | (name, text) :: rest, draft => do
      writeTexts rest (← draft.write name (Utf8.encode text))

/-- Writes the listings of the services. -/
def writeServices : Except Error Draft :=
  match draft.services with
  | some services => writeTexts services.files draft
  | none => .ok draft

end Draft

/-- Converts a jar with the given manifest.  The result is the converted jar, and whether nothing
was missing in its classes. -/
def convert (converter : Converter) (supers : SuperClasses Session) (jar : List ArchiveMember)
    (manifest : Manifest) : Task Session (Archive × Bool) := do
  let (manifest, services) ←
    if converter.target.number < firstWithModules then do
      let (manifest, services) ← withoutModule jar manifest
      pure (manifest, some services)
    else pure (manifest, none)
  let start : Draft := ⟨{}, services, true⟩
  let started ← (start.write manifestName manifest.toBytes : Except Error Draft)
  let filled ← Draft.addMembers converter supers jar started
  let finished ← (filled.writeServices : Except Error Draft)
  return (finished.writer.finish, finished.passed)

end Jar

end Downlevel
