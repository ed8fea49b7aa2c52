import Downlevel.Archive.Member

/-!
# Files and folders

A disk holds files and folders, each with the names on the way to it.  A folder is there if it was
made, or if something is in it.  Paths are texts with slashes; they are followed name by name, and
every name but the last has to be that of a folder.
-/

namespace Downlevel

/-- The names on the way to a file or a folder. -/
abbrev Place := List String

/-- Files with their contents, and folders, which have none. -/
structure Disk where
  /-- The folder in which paths start that do not start with a slash. -/
  base : Place := []
  items : List (Place × Option ByteArray) := []

namespace Disk

variable (disk : Disk)

/-- The contents of the file at a place. -/
def fileAt? (place : Place) : Option ByteArray :=
  (disk.items.find? fun item => item.1 = place).bind Prod.snd

/-- Whether there is a folder at a place. -/
def isFolderAt (place : Place) : Bool :=
  place.isEmpty || disk.items.any fun item =>
    match Text.afterFront? place item.1 with
    | some [] => item.2.isNone
    | some _ => true
    | none => false

/-- Whether there is something at a place. -/
def hasAt (place : Place) : Bool :=
  (disk.fileAt? place).isSome || disk.isFolderAt place

/-- Follows names from a folder. -/
def follow (place : Place) : List String → Option Place
  | [] => some place
  | name :: rest =>
      if disk.isFolderAt place then
        if name = "" || name = "." then follow place rest
        else if name = ".." then follow place.dropLast rest
        else follow (place ++ [name]) rest
      else none

/-- The names in a path. -/
def names (path : String) : List String :=
  (Text.splitSlashes path.toList).map String.ofList

/-- The place that a path leads to, whether something is there or not. -/
def place? (path : String) : Option Place :=
  disk.follow (if Text.beginsWith '/' path then [] else disk.base) (names path)

/-- The contents of the file at a path. -/
def file? (path : String) : Option ByteArray :=
  (disk.place? path).bind disk.fileAt?

/-- The place of the folder at a path. -/
def folder? (path : String) : Option Place :=
  (disk.place? path).filter disk.isFolderAt

/-- Whether there is a folder at a path. -/
def isFolder (path : String) : Bool :=
  (disk.folder? path).isSome

/-- Whether there is something at a path. -/
def has (path : String) : Bool :=
  match disk.place? path with
  | some place => disk.hasAt place
  | none => false

/-- Puts a file at a place. -/
def put (place : Place) (content : ByteArray) : Disk :=
  { disk with items := (place, some content) :: disk.items.filter fun item => item.1 ≠ place }

/-- Removes what is at a place. -/
def erase (place : Place) : Disk :=
  { disk with items := disk.items.filter fun item => item.1 ≠ place }

/-! ## What is in a folder -/

/-- Whether a place comes before another one: the names on the way are compared in turn. -/
def isBefore : Place → Place → Bool
  | [], _ :: _ => true
  | _, [] => false
  | a :: as, b :: bs => a < b || (a = b && isBefore as bs)

/-- Keeps the first of neighbouring items with the same place. -/
def dropRepeated : List (Place × Option ByteArray) → List (Place × Option ByteArray)
  | a :: b :: rest =>
      if a.1 = b.1 then dropRepeated (a :: rest) else a :: dropRepeated (b :: rest)
  | items => items
termination_by items => items.length

/-- An item with the folders that it is in. -/
def withFolders (item : Place × Option ByteArray) : List (Place × Option ByteArray) :=
  item :: (List.range item.1.length).filterMap fun count =>
    if count = 0 then none else some (item.1.take count, none)

/-- Everything in a folder, with places from the folder on, in order. -/
def itemsIn (folder : Place) : List (Place × Option ByteArray) :=
  let inside := disk.items.filterMap fun item =>
    match Text.afterFront? folder item.1 with
    | some [] => none
    | some place => some (place, item.2)
    | none => none
  dropRepeated ((inside.flatMap withFolders).mergeSort fun a b => !isBefore b.1 a.1)

/-- The member of an archive that an item in a folder makes. -/
def memberOf (item : Place × Option ByteArray) : ArchiveMember :=
  let name := "/".intercalate item.1
  match item.2 with
  | none => ⟨name ++ "/", none⟩
  | some content => ⟨name, some (Thunk.mk fun _ => .ok content.toList)⟩

/-- The members of a folder that is taken for an archive. -/
def members (folder : Place) : List ArchiveMember :=
  (disk.itemsIn folder).map memberOf

/-- The names of the files directly in a folder, in order. -/
def filesIn (folder : Place) : List String :=
  (disk.itemsIn folder).filterMap fun item =>
    match item with
    | ([name], some _) => some name
    | _ => none

end Disk

end Downlevel
