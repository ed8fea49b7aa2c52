import Downlevel.Archive.Basic
import Downlevel.Error

/-!
# Archives that are read on demand

The members of an archive as it is opened: their names are known, but the contents of a file are
looked at only when they are needed.  Loading all of them gives the archive.
-/

namespace Downlevel

/-- A member of an opened archive. -/
structure ArchiveMember where
  name : String
  /-- What the file holds, if it can be read; directories hold nothing. -/
  content : Option (Thunk (Except Error Bytes))

namespace ArchiveMember

/-- The member that is an entry with known contents. -/
def ofEntry (entry : ArchiveEntry) : ArchiveMember :=
  ⟨entry.name, entry.content.map fun bytes => Thunk.pure (.ok bytes)⟩

/-- What a member holds; directories hold nothing. -/
def read (member : ArchiveMember) : Except Error (Option Bytes) :=
  match member.content with
  | none => .ok none
  | some content => content.get.map some

/-- What the file of a name holds.  If there is none, or it is a directory, there is nothing. -/
def readFrom (members : List ArchiveMember) (name : String) : Except Error (Option Bytes) :=
  match members.find? fun member => member.name = name with
  | none => .ok none
  | some member => member.read

/-- The entry of a member. -/
def load (member : ArchiveMember) : Except Error ArchiveEntry :=
  member.read.map fun content => ⟨member.name, content⟩

/-- Reading a member with known contents gives them. -/
@[simp] theorem read_ofEntry (entry : ArchiveEntry) : (ofEntry entry).read = .ok entry.content := by
  obtain ⟨name, content⟩ := entry
  cases content <;> simp [read, ofEntry, Thunk.pure, Thunk.get, Except.map]

/-- Loading a member with known contents gives the entry. -/
@[simp] theorem load_ofEntry (entry : ArchiveEntry) : (ofEntry entry).load = .ok entry := by
  rw [load, read_ofEntry]
  rfl

/-- The entries of members. -/
def loadAll : List ArchiveMember → Except Error (List ArchiveEntry)
  | [] => .ok []
  | member :: rest => do return (← member.load) :: (← loadAll rest)

end ArchiveMember

namespace Archive

/-- The archive with the given members. -/
def ofMembers (members : List ArchiveMember) : Except Error Archive := do
  return ⟨← ArchiveMember.loadAll members⟩

/-- The members of an archive. -/
def members (archive : Archive) : List ArchiveMember :=
  archive.entries.map ArchiveMember.ofEntry

/-- Reading from the members of an archive is reading from the archive. -/
theorem readFrom_members (archive : Archive) (name : String) :
    ArchiveMember.readFrom archive.members name = .ok (archive.read? name) := by
  have h : ∀ entries : List ArchiveEntry,
      ArchiveMember.readFrom (entries.map ArchiveMember.ofEntry) name =
        .ok ((entries.find? fun entry => entry.name = name).bind ArchiveEntry.content) := by
    intro entries
    induction entries with
    | nil => rfl
    | cons entry rest ih =>
        by_cases hName : entry.name = name
        · simp [ArchiveMember.readFrom, ArchiveMember.ofEntry, hName]
          exact ArchiveMember.read_ofEntry entry
        · simpa [ArchiveMember.readFrom, ArchiveMember.ofEntry, hName] using ih
  exact h archive.entries

end Archive

end Downlevel
