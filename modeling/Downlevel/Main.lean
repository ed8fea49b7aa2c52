import Downlevel.CommandLine

/-!
# The program

Reads what a request needs from the disk, runs it, writes what came of it, and prints the journal.
-/

namespace Downlevel

/-- The items at a path of the disk.  Of a folder only what is directly in it is read, or all of it
if `deep` holds. -/
partial def loadItems (place : Place) (path : String) (deep : Bool) :
    IO (List (Place × Option ByteArray)) := do
  try
    let real ← IO.FS.realPath path
    if ← real.isDir then
      if deep then
        let entries ← real.readDir
        let inside ← entries.toList.mapM fun entry =>
          loadItems (place ++ [entry.fileName]) entry.path.toString deep
        return (place, none) :: inside.flatten
      else return [(place, none)]
    else return [(place, some (← IO.FS.readBinFile path))]
  catch _ => return []

/-- The folder that a path is in. -/
def parentOf (path : String) : String :=
  match (Disk.names path).dropLast with
  | [] => "."
  | [""] => "/"
  | names => "/".intercalate names

/-- The part of the disk that a request is about. -/
def loadDisk (request : Request) : IO Disk := do
  let current ← IO.currentDir
  let base := (Disk.names current.toString).filter fun name => name != ""
  let placeOf (path : String) : Place :=
    let start := if Text.beginsWith '/' path then [] else base
    (Disk.names path).foldl
      (fun place name =>
        if name = "" || name = "." then place
        else if name = ".." then place.dropLast
        else place ++ [name])
      start
  let items ← request.paths.mapM fun (path, deep) => do
    let parent := parentOf path
    return (← loadItems (placeOf parent) parent false) ++ (← loadItems (placeOf path) path deep)
  return ⟨base, (base, none) :: items.flatten⟩

/-- Writes the files that a run left. -/
def store (request : Request) (outcome : Outcome) : IO Unit := do
  match outcome.result, outcome.disk.file? request.output with
  | .ok _, some content =>
      IO.FS.writeBinFile request.partialFile content
      IO.FS.rename request.partialFile request.output
  | _, _ =>
      match outcome.disk.file? request.partialFile with
      | some content => IO.FS.writeBinFile request.partialFile content
      | none =>
          try IO.FS.removeFile request.partialFile
          catch _ => return ()

/-- Prints an event. -/
def printLine (level : Level) (text : String) : IO Unit :=
  IO.eprintln ("[" ++ level.word ++ "] " ++ text)

/-- Runs a request and tells how it ended. -/
def perform (request : Request) : IO UInt32 := do
  let outcome := Run.run (← loadDisk request) request
  for event in outcome.journal do
    printLine event.level event.text
  store request outcome
  match outcome.result with
  | .ok true =>
      printLine .info "Done"
      return 0
  | .ok false =>
      printLine .error ("Symbol table match failed. The jar file was converted but relies on " ++
        "members not present in the target version.")
      return 1
  | .error error =>
      IO.eprintln ("Error: " ++ error.message)
      return 1

end Downlevel

/-- Converts the jar that the arguments name. -/
def main (arguments : List String) : IO UInt32 := do
  let home ← IO.getEnv "JAVA_HOME"
  match (Downlevel.Arguments.read {} arguments).bind fun read => read.request home with
  | .ok request => Downlevel.perform request
  | .error complaint =>
      IO.eprintln ("error: " ++ complaint)
      return 2
