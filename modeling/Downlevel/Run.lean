import Downlevel.Jar.Convert
import Downlevel.Symbols.Open

/-!
# Converting a jar on a disk

A run reads the symbols of the target from a development kit and converts a jar.  Super classes are
looked for in the jar itself, on the class path, and in the symbols, in this order.  The result is
written to a partial file beside the output, which takes the place of the output when it is
complete.  A run that fails leaves the output as it was.
-/

namespace Downlevel

/-- What to convert, and where to find what is needed for it. -/
structure Request where
  target : Release
  input : String
  output : String
  /-- The development kit. -/
  java : String
  classPath : List String

namespace Request

/-- The path of the partial file. -/
def partialFile (request : Request) : String :=
  request.output ++ ".part"

end Request

/-- Everything that a conversion needs. -/
structure Plan where
  jar : List ArchiveMember
  manifest : Manifest
  converter : Converter
  supers : SuperClasses Session

namespace Plan

/-- The paths at which there is something; the others are noted. -/
def present (disk : Disk) : List String → Task Session (List String)
  | [] => return []
  | path :: rest => do
      if disk.has path then return path :: (← present disk rest)
      else
        Task.note (.missingPath path)
        present disk rest

/-- The outlines of the classes in jars. -/
def outlinesOf (disk : Disk) : List String → Except Error (List OutlineTable)
  | [] => .ok []
  | path :: rest => do
      let jar := JarFile.ofPath disk path
      let table := OutlineTable.ofJar jar.classFront (← jar.members disk)
      return table :: (← outlinesOf disk rest)

/-- Reads everything that a conversion needs. -/
def make (disk : Disk) (request : Request) : Task Session Plan := do
  Task.note (.buildingSymbols request.target.text)
  let symbols ← SymbolTable.ofKit disk request.java request.target
  let classPath ← present disk request.classPath
  Task.note (.readingInput request.input)
  let jar ← (JarFile.archiveMembers disk request.input : Except Error (List ArchiveMember))
  let manifest ← (Jar.manifest jar : Except Error Manifest)
  let others ← (outlinesOf disk classPath : Except Error (List OutlineTable))
  let lookup : Lookup := ⟨OutlineTable.ofJar "" jar :: others ++ symbols.catalog.tables⟩
  return {
    jar := jar
    manifest := manifest
    converter := ⟨request.target, some symbols⟩
    supers := Hierarchy.supers lookup }

/-- Converts the jar. -/
def convert (plan : Plan) : Task Session (Archive × Bool) :=
  Jar.convert plan.converter plan.supers plan.jar plan.manifest

end Plan

/-- How a run ended. -/
structure Outcome where
  /-- Whether nothing was missing in the converted classes. -/
  result : Except Error Bool
  journal : Journal
  /-- The disk behind the run. -/
  disk : Disk

namespace Run

/-- The end of a run that fails. -/
def failed (disk : Disk) (error : Error) (session : Session) : Outcome :=
  ⟨.error error, session.journal, disk⟩

/-- Puts a complete partial file in the place of the output. -/
def moveOutput (disk : Disk) (request : Request) (source : Place) (content : ByteArray)
    (passed : Bool) (session : Session) : Outcome :=
  let refused (reason : ArchiveFault) : Outcome :=
    failed (disk.put source content)
      ((Error.of (.archive reason)).within
        (.archive (.moveOutput request.partialFile request.output)))
      session
  if disk.isFolder request.output then refused .isDirectory
  else
    match disk.place? request.output with
    | none => refused .noSuchFile
    | some target => ⟨.ok passed, session.journal, (disk.erase source).put target content⟩

/-- Converts a jar by a plan. -/
def execute (disk : Disk) (request : Request) (plan : Plan) (session : Session) : Outcome :=
  let refused (reason : ArchiveFault) : Session → Outcome :=
    failed disk
      ((Error.of (.archive reason)).within (.archive (.createOutput request.partialFile)))
  if disk.isFolder request.partialFile then
    refused .isDirectory (session.record (.noted
      (.cannotRemove request.partialFile (Error.of (.archive .isDirectory)))))
  else
    match disk.place? request.partialFile with
    | none => refused .noSuchFile session
    | some place =>
        match plan.convert session with
        | (.error error, session) => failed (disk.erase place) error session
        | (.ok (jar, passed), session) =>
            moveOutput disk request place (Zip.encode jar) passed session

/-- Converts a jar on a disk. -/
def run (disk : Disk) (request : Request) : Outcome :=
  match Plan.make disk request {} with
  | (.error error, session) => failed disk error session
  | (.ok plan, session) => execute disk request plan session

end Run

end Downlevel
