import Downlevel.Quoted

/-!
# What can go wrong with archives and files

Reasons why an archive, a file in it, or a file on disk cannot be read or written, and the places
that an explanation passes on its way out, each with its wording.
-/

namespace Downlevel

/-- The kinds of archive files, as messages name them. -/
inductive ArchiveKind where
  | jar
  | jmod
  deriving DecidableEq

namespace ArchiveKind

/-- An archive file with its path, as messages show it. -/
def describe (kind : ArchiveKind) (path : String) : String :=
  (match kind with
    | jar => "FileJar"
    | jmod => "JmodJar") ++ " \x7b path: " ++ Quoted.text path ++ " \x7d"

end ArchiveKind

/-- Why an archive or a file cannot be read or written. -/
inductive ArchiveFault where
  | fileForClass (file cls : String)
  | classFromFile (cls file : String)
  | catalogFile (file : String)
  | classFromCatalog (cls file : String)
  | noModules (path : String)
  | noCatalog (path : String)
  | emptyCatalog (path release : String)
  | symbolTable (path : String)
  | openFile (path : String)
  | readFile (path : String)
  | invalidModuleFile (path : String)
  | moduleHeader
  | notArchive (kind : ArchiveKind) (path : String)
  | brokenArchive
  | noSuchFile
  | isDirectory
  | startFile (name : String)
  | addDirectory (name : String)
  | duplicateName
  | manifest
  | manifestNotText
  | nothingToContinue (line : Nat)
  | manifestLine (line : Nat) (text : String)
  | multiRelease
  | moduleInfo
  | noModuleAttribute
  | listingNotText (name : String)
  | readEntry (name : String)
  | convertingEntry (name : String)
  | createOutput (path : String)
  | moveOutput (source target : String)
  deriving DecidableEq

namespace ArchiveFault

/-- The wording of a fault. -/
def text : ArchiveFault → String
  | fileForClass file cls => "failed to read " ++ Quoted.text file ++ " for class " ++ cls
  | classFromFile cls file => s!"failed to read class {cls} from " ++ Quoted.text file
  | catalogFile file => "failed to read " ++ Quoted.text file ++ " from ct.sym"
  | classFromCatalog cls file =>
      s!"failed to read class {cls} from ct.sym entry " ++ Quoted.text file
  | noModules path => "JDK modules not found: " ++ Quoted.text path
  | noCatalog path => "ct.sym not found: " ++ Quoted.text path
  | emptyCatalog path release =>
      "ct.sym at " ++ Quoted.text path ++ " has no classes for java " ++ release
  | symbolTable path => "failed to load the symbol table from " ++ Quoted.text path
  | openFile path => "could not open file " ++ ArchiveKind.jar.describe path
  | readFile path => "could not read file " ++ ArchiveKind.jmod.describe path
  | invalidModuleFile path => "invalid jmod file " ++ ArchiveKind.jmod.describe path
  | moduleHeader => "jmod header doesn't match, expected [4a, 4d, 1, 0]"
  | notArchive kind path => "failed to read zip archive from " ++ kind.describe path
  | brokenArchive => "invalid Zip archive"
  | noSuchFile => "No such file or directory (os error 2)"
  | isDirectory => "Is a directory (os error 21)"
  | startFile name => "failed to start file " ++ Quoted.text name ++ " in jar"
  | addDirectory name => "failed to add directory " ++ Quoted.text name ++ " to jar"
  | duplicateName => "invalid Zip archive: Duplicate filename"
  | manifest => "failed to read the manifest"
  | manifestNotText => "manifest is not UTF-8"
  | nothingToContinue line =>
      s!"continuation line {line} of manifest has nothing to continue"
  | manifestLine line content => s!"invalid line {line} of manifest: " ++ Quoted.text content
  | multiRelease => "Can't process multi-release jars."
  | moduleInfo => "failed to read module-info.class"
  | noModuleAttribute => "module-info.class has no module attribute"
  | listingNotText name => "service listing " ++ Quoted.text name ++ " is not UTF-8"
  | readEntry name => "failed to read " ++ Quoted.text name
  | convertingEntry name => "failed to convert " ++ Quoted.text name
  | createOutput path => "failed to create output " ++ Quoted.text path
  | moveOutput source target =>
      "failed to move " ++ Quoted.text source ++ " to " ++ Quoted.text target

end ArchiveFault

end Downlevel
