import Mathlib.Data.List.Induction
import Mathlib.Data.List.Nodup
import Downlevel.Archive.Writer
import Downlevel.Proofs.Outcome

/-!
# What is written into an archive

A writer puts the directories around a file in front of it, each of them once.  Here that is said of
the finished archive: no two entries have the same name, and in front of every entry there is an
entry for each directory that it is in.

The directories of a path are read off its slashes from the left, so those around a directory come
before it (`ancestors_inOrder`).  That is what makes the order right, and it makes a list of
directories safe to be written in its order.

* `ArchiveWriter.Sound` — what holds of every writer that was filled by its own functions;
* `ArchiveWriter.writeFile_adds`, `ArchiveWriter.addDirectory_adds` — what writing a file and adding
  a directory do to the entries.
-/

namespace Downlevel

namespace ArchiveWriter

/-! ### The directories that something is in -/

/-- The texts before the slashes, seen from the end: a slash at the end adds the text before it. -/
theorem beforeSlashes_append_singleton (before chars : List Char) (c : Char) :
    beforeSlashes before (chars ++ [c]) =
      beforeSlashes before chars ++ if c = '/' then [before.reverse ++ chars] else [] := by
  induction chars generalizing before with
  | nil => by_cases hc : c = '/' <;> simp [beforeSlashes, hc]
  | cons first rest ih =>
      by_cases hfirst : first = '/'
      · simp [beforeSlashes, hfirst, ih]
      · simp [beforeSlashes, hfirst, ih]

/-- A character behind a name adds a directory only if it is a slash. -/
theorem ancestors_push (name : List Char) (c : Char) :
    ancestors (String.ofList (name ++ [c])) =
      ancestors (String.ofList name) ++
        if c = '/' ∧ trimSlashes name ≠ [] then [String.ofList (trimSlashes name)] else [] := by
  unfold ancestors
  rw [String.toList_ofList, String.toList_ofList, beforeSlashes_append_singleton]
  by_cases hc : c = '/'
  · by_cases hname : trimSlashes name = []
    · simp [hc, hname]
    · simp [hc, hname]
  · simp [hc]

/-- What stands in front of a text is in no more directories than the text. -/
theorem ancestors_subset (front back : List Char) :
    ∀ path ∈ ancestors (String.ofList front), path ∈ ancestors (String.ofList (front ++ back)) := by
  induction back using List.reverseRecOn with
  | nil => simp
  | append_singleton middle last ih =>
      intro path hpath
      rw [← List.append_assoc, ancestors_push]
      exact List.mem_append_left _ (ih path hpath)

/-- A name is what is left of it without the slashes at its end, and slashes. -/
theorem exists_slashes (name : List Char) :
    ∃ slashes, name = trimSlashes name ++ slashes := by
  refine ⟨(name.reverse.takeWhile (· = '/')).reverse, ?_⟩
  rw [trimSlashes, ← List.reverse_append, List.takeWhile_append_dropWhile, List.reverse_reverse]

/-- A text that does not end with a slash has none to take away. -/
theorem trimSlashes_eq_self {name : List Char} (h : name.getLast? ≠ some '/') :
    trimSlashes name = name := by
  unfold trimSlashes
  cases hreverse : name.reverse with
  | nil => simpa using hreverse
  | cons last rest =>
      have hlast : last ≠ '/' := by
        rintro rfl
        exact h (by rw [← List.head?_reverse, hreverse]; rfl)
      rw [List.dropWhile_cons_of_neg (by simpa using hlast), ← hreverse, List.reverse_reverse]

/-- Something inside of a directory has the directory among its own. -/
theorem mem_ancestors {path name : List Char} (hpath : path ≠ []) (hlast : path.getLast? ≠ some '/')
    (hinside : path ++ ['/'] <+: name) :
    String.ofList path ∈ ancestors (String.ofList name) := by
  obtain ⟨back, rfl⟩ := hinside
  refine ancestors_subset _ _ _ ?_
  rw [ancestors_push, trimSlashes_eq_self hlast]
  simp [hpath]

/-- Some directories can be written in their order: those around each of them are written before,
or come earlier. -/
def InOrder (written : String → Prop) (paths : List String) : Prop :=
  ∀ front path back, paths = front ++ path :: back →
    ∀ around ∈ ancestors path, written around ∨ around ∈ front

namespace InOrder

variable {written : String → Prop} {path : String} {paths : List String}

/-- The first of some directories, and the rest once it is written. -/
theorem tail (h : InOrder written (path :: paths)) {later : String → Prop}
    (hlater : ∀ other, written other ∨ other = path → later other) : InOrder later paths := by
  intro front other back hsplit around haround
  rcases h (path :: front) other back (by rw [hsplit]; rfl) around haround with hold | hnew
  · exact .inl (hlater around (.inl hold))
  · rcases List.mem_cons.mp hnew with rfl | hfront
    · exact .inl (hlater around (.inr rfl))
    · exact .inr hfront

/-- A directory behind those around it. -/
theorem push (h : InOrder written paths) (hpath : ∀ around ∈ ancestors path, around ∈ paths) :
    InOrder written (paths ++ [path]) := by
  intro front other back hsplit around haround
  rcases List.append_eq_append_iff.mp hsplit with ⟨middle, rfl, hrest⟩ | ⟨middle, rfl, hrest⟩
  · cases middle with
    | nil =>
        obtain ⟨rfl, -⟩ : path = other ∧ [] = back := by simpa using hrest
        exact .inr (by simpa using hpath around haround)
    | cons first more => simp at hrest
  · cases middle with
    | nil =>
        obtain ⟨rfl, -⟩ : path = other ∧ back = [] := by simpa [eq_comm] using hrest
        exact .inr (by simpa using hpath around haround)
    | cons first more =>
        simp only [List.cons_append, List.cons.injEq] at hrest
        obtain ⟨rfl, -⟩ := hrest
        exact h front other more rfl around haround

end InOrder

/-- **The directories that something is in are listed in an order in which they can be written.** -/
theorem ancestors_inOrder (written : String → Prop) (name : List Char) :
    InOrder written (ancestors (String.ofList name)) := by
  induction name using List.reverseRecOn with
  | nil =>
      intro front path back hsplit
      simp [ancestors, beforeSlashes] at hsplit
  | append_singleton name last ih =>
      rw [ancestors_push]
      split
      · refine ih.push fun around haround => ?_
        obtain ⟨slashes, hname⟩ := exists_slashes name
        rw [hname]
        exact ancestors_subset _ _ around haround
      · simpa using ih

/-! ### What writing keeps -/

/-- Something is inside of a directory, which is given without the slash at its end. -/
structure Inside (path name : String) : Prop where
  notEmpty : path ≠ ""
  noSlash : path.toList.getLast? ≠ some '/'
  begins : path.toList ++ ['/'] <+: name.toList
  other : name ≠ path ++ "/"

/-- Something inside of a directory has the directory among its own. -/
theorem Inside.mem_ancestors {path name : String} (h : Inside path name) :
    path ∈ ancestors name := by
  have hpath : path.toList ≠ [] := by simpa using h.notEmpty
  simpa using ArchiveWriter.mem_ancestors hpath h.noSlash h.begins

/-- What a directory is inside of is among the directories that its path is in. -/
theorem Inside.mem_ancestors_directory {path around : String}
    (h : Inside around (Archive.directoryName path)) : around ∈ ancestors path := by
  by_cases hname : Archive.isDirectoryName path = true
  · rw [Archive.directoryName, if_pos hname] at h
    exact h.mem_ancestors
  · obtain ⟨hne, hlast, hbegins, hother⟩ := h
    rw [Archive.directoryName, if_neg hname] at hbegins hother
    have hchars : (path ++ "/").toList = path.toList ++ ['/'] := by simp
    rw [hchars, List.prefix_concat_iff] at hbegins
    rcases hbegins with hsame | hinside
    · refine absurd ?_ hother
      simpa [← String.toList_inj] using hsame.symm
    · simpa using ArchiveWriter.mem_ancestors (by simpa using hne) hlast hinside

/-- What holds of a writer at any time: its names are those of its entries, no two of which are the
same; the directories that it knows of are written; and in front of each entry (which here means
behind it) are the directories that it is in. -/
structure Sound (writer : ArchiveWriter) : Prop where
  named : ∀ name, name ∈ writer.names ↔ name ∈ writer.entries.map ArchiveEntry.name
  distinct : (writer.entries.map ArchiveEntry.name).Nodup
  listed : ∀ path ∈ writer.directories, ⟨Archive.directoryName path, none⟩ ∈ writer.entries
  behind : ∀ later entry earlier, writer.entries = later ++ entry :: earlier →
    ∀ path, Inside path entry.name → ⟨Archive.directoryName path, none⟩ ∈ earlier

/-- The entry of a file. -/
def fileEntry (file : String × Bytes) : ArchiveEntry :=
  Archive.entryOf file.1 (some file.2)

/-- One writer comes from another one by writing some files, in their order, and directories. -/
structure Adds (before after : ArchiveWriter) (files : List (String × Bytes)) : Prop where
  sound : after.Sound
  grows : ∃ added, after.finish.entries = before.finish.entries ++ added ∧
    (files.map fileEntry).Sublist added ∧
    ∀ entry ∈ added, entry ∈ files.map fileEntry ∨ entry.content = none
  keeps : ∀ path ∈ before.directories, path ∈ after.directories

variable {writer before between after : ArchiveWriter} {files others : List (String × Bytes)}

/-- A writer that has written nothing. -/
theorem sound_empty : Sound {} :=
  ⟨by simp, by simp, by simp, by simp⟩

namespace Adds

/-- Writing nothing. -/
theorem refl (h : writer.Sound) : writer.Adds writer [] :=
  ⟨h, ⟨[], by simp⟩, fun _ hpath => hpath⟩

/-- Writing some files and then others. -/
theorem trans (hfirst : before.Adds between files) (hsecond : between.Adds after others) :
    before.Adds after (files ++ others) := by
  obtain ⟨_, ⟨added, hadded, hfiles, hrest⟩, hkeeps⟩ := hfirst
  obtain ⟨hsound, ⟨more, hmore, hothers, hlast⟩, hkeeps'⟩ := hsecond
  refine ⟨hsound, ⟨added ++ more, ?_, ?_, ?_⟩, fun path hpath => hkeeps' path (hkeeps path hpath)⟩
  · rw [hmore, hadded, List.append_assoc]
  · rw [List.map_append]
    exact hfiles.append hothers
  · intro entry hentry
    rw [List.map_append, List.mem_append]
    rcases List.mem_append.mp hentry with hin | hin
    · exact (hrest entry hin).imp_left .inl
    · exact (hlast entry hin).imp_left .inr

end Adds

/-- Writing an entry whose directories are there keeps what holds of a writer. -/
theorem Sound.put (h : writer.Sound) {fault : ArchiveFault} {entry : ArchiveEntry}
    (hput : writer.put fault entry = .ok after)
    (haround : ∀ path, Inside path entry.name →
      ⟨Archive.directoryName path, none⟩ ∈ writer.entries) :
    after.Sound ∧ after.entries = entry :: writer.entries ∧
      after.directories = writer.directories := by
  unfold ArchiveWriter.put at hput
  split at hput
  next => simp at hput
  next hnew =>
    obtain rfl := Except.ok.inj hput
    refine ⟨⟨fun name => ?_, ?_, fun path hpath => ?_, ?_⟩, rfl, rfl⟩
    · rw [Std.HashSet.mem_insert, h.named, beq_iff_eq, List.map_cons, List.mem_cons,
        eq_comm (a := name)]
    · refine List.nodup_cons.mpr ⟨?_, h.distinct⟩
      rw [← h.named]
      simpa using hnew
    · exact List.mem_cons_of_mem _ (h.listed path hpath)
    · intro later other earlier hsplit path hinside
      cases later with
      | nil =>
          obtain ⟨rfl, rfl⟩ : entry = other ∧ writer.entries = earlier := by simpa using hsplit
          exact haround path hinside
      | cons first rest =>
          obtain ⟨-, hrest⟩ : entry = first ∧ writer.entries = rest ++ other :: earlier := by
            simpa using hsplit
          exact h.behind rest other earlier hrest path hinside

/-- Writing a directory whose own directories are there, unless it is there itself. -/
theorem putDirectory_adds (h : writer.Sound) {path : String}
    (hpath : ∀ around ∈ ancestors path, around ∈ writer.directories)
    (hput : writer.putDirectory path = .ok after) :
    writer.Adds after [] ∧ path ∈ after.directories := by
  unfold putDirectory at hput
  split at hput
  next hknown =>
    obtain rfl := pure_eq_ok.mp hput
    exact ⟨.refl h, hknown⟩
  next =>
    obtain ⟨put, hentry, hafter⟩ := bind_eq_ok.mp hput
    obtain rfl := pure_eq_ok.mp hafter
    obtain ⟨hsound, hentries, hdirectories⟩ := h.put hentry fun around hinside =>
      h.listed around (hpath around hinside.mem_ancestors_directory)
    refine ⟨⟨⟨hsound.named, hsound.distinct, ?_, hsound.behind⟩,
      ⟨[⟨Archive.directoryName path, none⟩], ?_, by simp, by simp⟩, ?_⟩, by simp⟩
    · intro other hother
      rcases Std.HashSet.mem_insert.mp hother with hsame | hold
      · obtain rfl : path = other := by simpa using hsame
        rw [hentries]
        exact List.mem_cons_self
      · exact hsound.listed other hold
    · simp only [finish, hentries, List.reverse_cons]
    · intro other hother
      simp [hdirectories, hother]

/-- Writing directories in an order in which that is possible. -/
theorem putDirectories_adds (h : writer.Sound) {paths : List String}
    (hpaths : InOrder (· ∈ writer.directories) paths)
    (hput : putDirectories paths writer = .ok after) :
    writer.Adds after [] ∧ ∀ path ∈ paths, path ∈ after.directories := by
  induction paths generalizing writer with
  | nil =>
      obtain rfl := Except.ok.inj hput
      exact ⟨.refl h, by simp⟩
  | cons path rest ih =>
      obtain ⟨between, hfirst, hrest⟩ := bind_eq_ok.mp hput
      have haround : ∀ around ∈ ancestors path, around ∈ writer.directories := fun around hmem =>
        (hpaths [] path rest rfl around hmem).resolve_right (by simp)
      obtain ⟨hadds, hpath⟩ := putDirectory_adds h haround hfirst
      have hnext : InOrder (· ∈ between.directories) rest := by
        refine hpaths.tail ?_
        rintro other (hold | rfl)
        · exact hadds.keeps other hold
        · exact hpath
      obtain ⟨hmore, hall⟩ := ih hadds.sound hnext hrest
      refine ⟨hadds.trans hmore, fun other hother => ?_⟩
      rcases List.mem_cons.mp hother with rfl | hlater
      · exact hmore.keeps other hpath
      · exact hall other hlater

/-- **Adding a directory** adds it, with those around it, if it has a name at all. -/
theorem addDirectory_adds (h : writer.Sound) {name : String}
    (hadd : writer.addDirectory name = .ok after) :
    writer.Adds after [] ∧ ∀ path, String.ofList (trimSlashes name.toList) = path → path ≠ "" →
      path ∈ after.directories := by
  unfold addDirectory at hadd
  dsimp only at hadd
  split at hadd
  next hempty =>
    obtain rfl := Except.ok.inj hadd
    refine ⟨.refl h, ?_⟩
    rintro path rfl hne
    exact absurd (by simpa using hempty) hne
  next =>
    have horder : InOrder (· ∈ writer.directories) (ancestors (String.ofList
        (trimSlashes name.toList)) ++ [String.ofList (trimSlashes name.toList)]) :=
      (ancestors_inOrder _ _).push fun _ haround => haround
    obtain ⟨hadds, hall⟩ := putDirectories_adds h horder hadd
    refine ⟨hadds, ?_⟩
    rintro path rfl _
    exact hall _ (by simp)

/-- **Writing a file** writes it behind the directories around it. -/
theorem writeFile_adds (h : writer.Sound) {name : String} {bytes : Bytes}
    (hwrite : writer.writeFile name bytes = .ok after) : writer.Adds after [(name, bytes)] := by
  obtain ⟨between, hdirectories, hput⟩ := bind_eq_ok.mp hwrite
  have horder := ancestors_inOrder (· ∈ writer.directories) name.toList
  rw [String.ofList_toList] at horder
  obtain ⟨hadds, hall⟩ := putDirectories_adds h horder hdirectories
  have hname : (Archive.entryOf name (some bytes)).name = name := by
    unfold Archive.entryOf
    dsimp only
    split <;> rfl
  have haround : ∀ path, Inside path (Archive.entryOf name (some bytes)).name →
      ⟨Archive.directoryName path, none⟩ ∈ between.entries := by
    intro path hinside
    rw [hname] at hinside
    exact hadds.sound.listed path (hall path hinside.mem_ancestors)
  obtain ⟨hsound, hentries, hknown⟩ := hadds.sound.put hput haround
  have hfile : between.Adds after [(name, bytes)] := by
    refine ⟨hsound, ⟨[fileEntry (name, bytes)], ?_, by simp, by simp⟩, ?_⟩
    · simp only [finish, hentries, List.reverse_cons, fileEntry]
    · intro path hpath
      rwa [hknown]
  exact hadds.trans hfile

/-- Slashes at the end of a path are taken away. -/
theorem trimSlashes_append_slashes {path : List Char} (h : path.getLast? ≠ some '/') (count : Nat) :
    trimSlashes (path ++ List.replicate count '/') = path := by
  have hself := trimSlashes_eq_self h
  unfold trimSlashes at hself ⊢
  rw [List.reverse_append, List.reverse_replicate,
    List.dropWhile_append_of_pos fun c hc => by simp [List.eq_of_mem_replicate hc], hself]

/-- An archive holds files, in their order, and besides them only directories; no two of its entries
have the same name; and the directories that an entry is in come before it. -/
structure Holds (archive : Archive) (files : List (String × Bytes)) : Prop where
  inOrder : (files.map fileEntry).Sublist archive.entries
  nothingElse : ∀ entry ∈ archive.entries, entry ∈ files.map fileEntry ∨ entry.content = none
  distinct : archive.names.Nodup
  around : ∀ front entry back, archive.entries = front ++ entry :: back →
    ∀ path, path ≠ "" → path.toList.getLast? ≠ some '/' →
      path.toList ++ ['/'] <+: entry.name.toList → entry.name ≠ path ++ "/" →
      ⟨Archive.directoryName path, none⟩ ∈ front

/-- **The finished archive holds the files that were written.** -/
theorem Adds.holds (h : Adds {} writer files) : Holds writer.finish files := by
  obtain ⟨hsound, ⟨added, hadded, hfiles, hrest⟩, -⟩ := h
  have hentries : writer.finish.entries = added := by simpa [finish] using hadded
  refine ⟨hentries ▸ hfiles, hentries ▸ hrest, ?_, ?_⟩
  · have hdistinct := List.nodup_reverse.mpr hsound.distinct
    rwa [← List.map_reverse] at hdistinct
  · intro front entry back hsplit path hne hlast hbegins hother
    have hreversed : writer.entries = back.reverse ++ entry :: front.reverse := by
      have hback := congrArg List.reverse hsplit
      simpa [finish] using hback
    have hinside : Inside path entry.name := ⟨hne, hlast, hbegins, hother⟩
    exact List.mem_reverse.mp (hsound.behind _ _ _ hreversed path hinside)

end ArchiveWriter

end Downlevel
