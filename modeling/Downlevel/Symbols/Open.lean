import Downlevel.Archive.Member
import Downlevel.Jar.File
import Downlevel.Lookup
import Downlevel.Release
import Downlevel.Symbols.Table

/-!
# The symbol table of a development kit

The classes of a jar are found by the names of its files, possibly behind a common beginning.  A
symbol catalog holds the outlines of the classes of several releases: its files are named for the
releases that they are for, the module, and the class.  A development kit has a catalog with the classes
of the releases that it can compile for, and module files with all classes of its own release.
-/

namespace Downlevel

namespace OutlineTable

/-- The outline of a class in a file of an archive. -/
def readClass (cls : ClassName) (file : String) (content : Except Error Bytes) :
    Except Error ClassOutline := do
  let bytes ← within (.archive (.fileForClass file cls)) content
  within (.archive (.classFromFile cls file)) (ClassOutline.ofBytes bytes)

/-- The class whose file has the given name, behind a common beginning. -/
def classOf? (front file : String) : Option ClassName :=
  (Text.after? front file).bind (Text.before? ArchiveEntry.classSuffix)

/-- The outlines of the classes in an archive whose files are named by `className?`. -/
def ofMembers (className? : String → Option ClassName)
    (read : ClassName → String → Except Error Bytes → Except Error ClassOutline)
    (members : List ArchiveMember) : OutlineTable :=
  members.foldl
    (fun table member =>
      match member.content, className? member.name with
      | some content, some cls =>
          table.insertIfNew cls (Thunk.mk fun _ => read cls member.name content.get)
      | _, _ => table)
    ∅

/-- The outlines of the classes in a jar.  The names of their files begin with `front`. -/
def ofJar (front : String) (members : List ArchiveMember) : OutlineTable :=
  ofMembers (classOf? front) readClass members

end OutlineTable

namespace Catalog

/-- The name of a file in a catalog ends with this. -/
def suffix : String := ".sig"

/-- The class that a file in a catalog is about, if it is for a release.  The first part of the
file's name has a character for each of its releases, the second one is the module. -/
def classOf? (release : Release) (file : String) : Option ClassName :=
  match Text.splitSlashes file.toList with
  | releases :: _ :: part :: parts =>
      if releases.contains release.catalogCode then
        Text.before? suffix (String.ofList (['/'].intercalate (part :: parts)))
      else none
  | _ => none

/-- The outline of a class in a file of a catalog. -/
def readClass (cls : ClassName) (file : String) (content : Except Error Bytes) :
    Except Error ClassOutline := do
  let bytes ← within (.archive (.catalogFile file)) content
  within (.archive (.classFromCatalog cls file)) (ClassOutline.ofBytes bytes)

/-- The outlines of the classes of a release in a catalog. -/
def table (release : Release) (members : List ArchiveMember) : OutlineTable :=
  OutlineTable.ofMembers (classOf? release) readClass members

end Catalog

namespace SymbolTable

/-- The path of something in the folder at a path. -/
def inFolder (folder name : String) : String :=
  if Text.endsIn "/" folder then folder ++ name else folder ++ "/" ++ name

/-- Where a development kit has its catalog. -/
def catalogPath (java : String) : String :=
  inFolder (inFolder java "lib") "ct.sym"

/-- Where a development kit has its module files. -/
def modulesPath (java : String) : String :=
  inFolder java "jmods"

/-- Names of files in a module that stand for no class. -/
def descriptions : List String := ["module-info", "package-info"]

/-- The class in a file of a module. -/
def moduleClass? (file : String) : Option ClassName := do
  let cls ← OutlineTable.classOf? "classes/" file
  let simple := String.ofList ((Text.splitSlashes cls.toList).getLastD [])
  if descriptions.contains simple then none else some cls

/-- The classes in module files. -/
def classesOf (disk : Disk) : List String → Std.HashSet ClassName →
    Except Error (Std.HashSet ClassName)
  | [], found => .ok found
  | path :: rest, found => do
      let members ← JarFile.moduleMembers disk path
      classesOf disk rest
        (found.insertMany (members.filterMap fun member => moduleClass? member.name))

/-- The classes in the module files of a development kit. -/
def inventoryOf (disk : Disk) (java : String) : Except Error (Std.HashSet ClassName) := do
  let path := modulesPath java
  let folder ← orFail (.archive (.noModules path)) (disk.folder? path)
  let files := (disk.filesIn folder).filter fun name =>
    JarFile.extensionOf? name = some JarFile.moduleExtension
  classesOf disk (files.map (inFolder path)) ∅

/-- The classes of a release in the catalog of a development kit. -/
def catalogOf (disk : Disk) (java : String) (release : Release) : Except Error OutlineTable := do
  let path := catalogPath java
  if (disk.file? path).isNone then fail (.archive (.noCatalog path))
  else
    let table := Catalog.table release (← JarFile.archiveMembers disk path)
    if table.isEmpty then fail (.archive (.emptyCatalog path release.text)) else return table

/-- The symbol table of a release from a development kit. -/
def ofKit (disk : Disk) (java : String) (release : Release) : Task Session SymbolTable :=
  Task.within (.archive (.symbolTable java)) do
    let catalog ← (catalogOf disk java release : Except Error OutlineTable)
    let inventory ← (inventoryOf disk java : Except Error (Std.HashSet ClassName))
    Task.note (.loadedSymbols release.text catalog.size inventory.size)
    return ⟨release, inventory, ⟨[catalog]⟩⟩

end SymbolTable

end Downlevel
