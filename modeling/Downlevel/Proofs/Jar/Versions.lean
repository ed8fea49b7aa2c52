import Downlevel.Proofs.Jar.Convert
import Downlevel.Proofs.Lower.Written

/-!
# The versions of the classes in a converted jar

What is converted is found out from names: whether the last part of a name ends like that of a
class, and is not that of the description of a module.  The property that matters speaks of what is
inside instead, of every entry that could be loaded as a class.  The two meet in three places.  A
name ends like a class exactly if its last part does (`endsIn_fileName`); a listing of services is
text, and no text begins like a class file (`Utf8.version_encode`); and a class that is left as it
is has no newer version than the target, while one that is written anew has just that version
(`Carried.major_le`).

* `Jar.convert_runs_on_target` — the versions of all classes of a converted jar.
-/

namespace Downlevel

namespace Text

/-- A text ends with another one exactly if its characters do. -/
theorem endsIn_iff {back text : String} :
    endsIn back text = true ↔ back.toList <:+ text.toList := by
  unfold endsIn before?
  rw [Option.isSome_map, Option.isSome_iff_exists]
  constructor
  · rintro ⟨front, hfront⟩
    exact ⟨front, (beforeBack?_eq_some_iff.mp hfront).symm⟩
  · rintro ⟨front, hfront⟩
    exact ⟨front, beforeBack?_eq_some_iff.mpr hfront.symm⟩

/-- The last part of a text is what stands behind its last slash. -/
theorem getLastD_splitSlashesFrom {part : List Char} (hpart : '/' ∉ part)
    (done : List (List Char)) (text : List Char) :
    (splitSlashesFrom done part text).getLastD [] =
      ((part.reverse ++ text).reverse.takeWhile (· != '/')).reverse := by
  induction text generalizing done part with
  | nil =>
      have hall : part.takeWhile (· != '/') = part := by
        rw [← List.append_nil part, List.takeWhile_append_of_pos]
        · simp
        · intro c hc
          simpa using ne_of_mem_of_not_mem hc hpart
      simp [splitSlashesFrom, List.getLastD_eq_getLast?, hall]
  | cons c rest ih =>
      by_cases hc : c = '/'
      · rw [splitSlashesFrom, if_pos hc, ih (by simp)]
        have hsplit : (part.reverse ++ c :: rest).reverse = rest.reverse ++ '/' :: part := by
          simp [hc]
        rw [hsplit, List.reverse_nil, List.nil_append, List.takeWhile_append]
        split
        next hlength =>
          have hwhole := (List.takeWhile_prefix _).eq_of_length hlength
          simp [hwhole]
        next => rfl
      · have hnext : '/' ∉ c :: part := by
          intro hmem
          rcases List.mem_cons.mp hmem with hsame | hin
          · exact hc hsame.symm
          · exact hpart hin
        rw [splitSlashesFrom, if_neg hc, ih hnext]
        simp

/-- An end without a slash is the end of a text exactly if it is the end of its last part. -/
theorem suffix_getLastD_splitSlashes {back text : List Char} (hback : '/' ∉ back) :
    back <:+ (splitSlashes text).getLastD [] ↔ back <:+ text := by
  rw [splitSlashes, getLastD_splitSlashesFrom (by simp), List.reverse_nil, List.nil_append]
  constructor
  · intro h
    have hlast := List.reverse_suffix.mpr (List.takeWhile_prefix (l := text.reverse) (· != '/'))
    rw [List.reverse_reverse] at hlast
    exact h.trans hlast
  · rintro ⟨front, rfl⟩
    have hnone : ∀ c ∈ back.reverse, (c != '/') = true := by
      intro c hc
      simpa using ne_of_mem_of_not_mem (List.mem_reverse.mp hc) hback
    rw [List.reverse_append, List.takeWhile_append_of_pos hnone, List.reverse_append,
      List.reverse_reverse]
    exact List.suffix_append _ back

end Text

namespace Utf8

/-- The bytes of a character are below those that occur in no text. -/
theorem toNat_lt_of_mem_encodeChar {c : Char} {byte : UInt8} (h : byte ∈ encodeChar c) :
    byte.toNat < 0xf8 := by
  have hc : c.toNat < 0x110000 := by
    have hvalid := c.valid
    unfold UInt32.isValidChar Nat.isValidChar at hvalid
    change c.val.toNat < 0x110000
    omega
  have hword : ∀ n : Nat, n < 0xf8 → n.toUInt8.toNat < 0xf8 := by
    intro n hn
    rw [Nat.toUInt8_eq, UInt8.toNat_ofNat']
    omega
  unfold encodeChar at h
  dsimp only at h
  split at h
  next hone =>
    rw [List.mem_singleton.mp h]
    exact hword _ (by omega)
  next =>
    split at h
    next htwo =>
      simp only [List.mem_cons, List.not_mem_nil, or_false] at h
      rcases h with h | h <;> rw [h] <;> exact hword _ (by omega)
    next =>
      split at h
      next hthree =>
        simp only [List.mem_cons, List.not_mem_nil, or_false] at h
        rcases h with h | h | h <;> rw [h] <;> exact hword _ (by omega)
      next =>
        simp only [List.mem_cons, List.not_mem_nil, or_false] at h
        rcases h with h | h | h | h <;> rw [h] <;> exact hword _ (by omega)

/-- No text begins like a class file. -/
theorem version_encode (text : String) (version : Version) :
    Version.ofBytes (encode text) ≠ .ok version := by
  intro h
  obtain ⟨first, rest, hbytes⟩ := Version.second_of_ofBytes h
  have hmem : (0xfe : UInt8) ∈ encode text := by
    rw [hbytes]
    simp
  obtain ⟨c, -, hbyte⟩ := List.mem_flatMap.mp hmem
  have hlt := toNat_lt_of_mem_encodeChar hbyte
  exact absurd hlt (by decide)

end Utf8

namespace Jar

/-- What stands behind the last slash of a name. -/
def fileName (name : String) : String :=
  String.ofList ((Text.splitSlashes name.toList).getLastD [])

/-- What is converted are the files with the names of classes, but no descriptions of modules. -/
theorem isClass_iff {name : String} :
    Draft.isClass name = true ↔
      Text.endsIn ArchiveEntry.classSuffix name = true ∧ fileName name ≠ moduleInfoName := by
  have hslash : '/' ∉ ArchiveEntry.classSuffix.toList := by decide
  have hends : Text.endsIn ArchiveEntry.classSuffix (fileName name) = true ↔
      Text.endsIn ArchiveEntry.classSuffix name = true := by
    rw [Text.endsIn_iff, Text.endsIn_iff, fileName, String.toList_ofList]
    exact Text.suffix_getLastD_splitSlashes hslash
  unfold Draft.isClass
  rw [Bool.and_eq_true, bne_iff_ne]
  exact and_congr_left fun _ => hends

variable {converter : Converter} {supers : SuperClasses Session} {jar : List ArchiveMember}
  {manifest : Manifest} {session session' : Session} {archive : Archive} {passed : Bool}

/-- The class that a member comes out as is no newer than the target, unless the member is the
description of a module, which comes out as it is. -/
theorem Carried.major_le {member : ArchiveMember} {file : String × Bytes} {version : Version}
    (h : Carried converter supers member file) (hversion : Version.ofBytes file.2 = .ok version)
    (hname : Text.endsIn ArchiveEntry.classSuffix file.1 = true) :
    file.1 = member.name ∧
      (fileName file.1 ≠ moduleInfoName → version.major ≤ converter.target.version.major) ∧
      (fileName file.1 = moduleInfoName → member.read = .ok (some file.2)) := by
  cases h with
  | copied hread hother =>
      have hmodule : fileName member.name = moduleInfoName := by
        by_contra hne
        have hclass := isClass_iff.mpr ⟨hname, hne⟩
        simp [hclass] at hother
      exact ⟨rfl, fun hne => absurd hmodule hne, fun _ => hread⟩
  | unchanged hread hclass hrun =>
      have hmodule := (isClass_iff.mp hclass).2
      have hmajor := Converter.major_le_of_unchanged hrun hversion
      exact ⟨rfl, fun _ => hmajor, fun hsame => absurd hsame hmodule⟩
  | renewed hread hclass hrun =>
      have hmodule := (isClass_iff.mp hclass).2
      have hsame := Except.ok.inj (hversion.symm.trans (Converter.version_of_renewed hrun))
      have hmajor : version.major ≤ converter.target.version.major := by
        rw [hsame]
        exact UInt16.le_refl _
      exact ⟨rfl, fun _ => hmajor, fun hsame => absurd hsame hmodule⟩

/-- The entry of a file that holds something has the name of the file, and holds what the file
does. -/
theorem fileEntry_of_content {file : String × Bytes} {bytes : Bytes}
    (h : (ArchiveWriter.fileEntry file).content = some bytes) :
    (ArchiveWriter.fileEntry file).name = file.1 ∧ file.2 = bytes := by
  unfold ArchiveWriter.fileEntry Archive.entryOf at h ⊢
  by_cases hdirectory : Archive.isDirectoryName file.1 = true
  · simp [hdirectory] at h
  · simpa [hdirectory] using h

/-- **Every class of a converted jar runs on the target.**  Whatever has the name of a class, and
begins like one, has at most the version of the target.  Descriptions of modules are left aside:
they are those that the jar had, as they were, and in front of a release without modules the one of
the jar's own module is gone. -/
theorem convert_runs_on_target
    (h : convert converter supers jar manifest session = (.ok (archive, passed), session'))
    (entry : ArchiveEntry) (hentry : entry ∈ archive.entries) (bytes : Bytes)
    (hcontent : entry.content = some bytes) (version : Version)
    (hversion : Version.ofBytes bytes = .ok version)
    (hname : Text.endsIn ArchiveEntry.classSuffix entry.name = true) :
    (fileName entry.name ≠ moduleInfoName → version.major ≤ converter.target.version.major) ∧
      (fileName entry.name = moduleInfoName →
        (converter.target.number < firstWithModules → entry.name ≠ moduleInfoName) ∧
          ∃ member ∈ jar, member.name = entry.name ∧ member.read = .ok (some bytes)) := by
  obtain ⟨header, services, between, writer, after, filled, carried, -, -, hstart, hfills,
    hlistings, rfl⟩ := convert_fills h
  have hholds := (hstart.trans (hfills.adds.trans hlistings)).holds
  rcases hholds.nothingElse entry hentry with hfile | hnone
  · obtain ⟨file, hmem, rfl⟩ := List.mem_map.mp hfile
    obtain ⟨hfilename, hbytes⟩ := fileEntry_of_content hcontent
    rw [hfilename] at hname ⊢
    rw [← hbytes] at hversion ⊢
    rcases List.mem_append.mp hmem with hmanifest | hmem
    · obtain rfl := List.mem_singleton.mp hmanifest
      have hother : Text.endsIn ArchiveEntry.classSuffix manifestName = false := by decide
      rw [hother] at hname
      cases hname
    · rcases List.mem_append.mp hmem with hcarried | hlisting
      · obtain ⟨member, hmember, hcarried⟩ := exists_left_of_forall₂ hfills.carries hcarried
        obtain ⟨hin, hkept⟩ := List.mem_filter.mp hmember
        obtain ⟨hsame, hmajor, hcopied⟩ := hcarried.major_le hversion hname
        refine ⟨hmajor, fun hmodule => ⟨fun hmodules hroot => ?_, ?_⟩⟩
        · rw [hsame] at hroot
          simp [isCarried, hmodules, hroot] at hkept
        · exact ⟨member, hin, hsame.symm, hcopied hmodule⟩
      · obtain ⟨listing, -, rfl⟩ := List.mem_map.mp hlisting
        exact absurd hversion (Utf8.version_encode _ version)
  · rw [hnone] at hcontent
    cases hcontent

/-- A file that is in no directory is written behind the manifest. -/
theorem writeFile_behindManifest (name : String) (bytes : Bytes)
    (hancestors : ArchiveWriter.ancestors name = [])
    (hfile : Archive.isDirectoryName name = false) (hother : manifestName ≠ name) :
    ∃ writer, (manifestOnly {}).writeFile name bytes = .ok writer ∧
      ⟨name, some bytes⟩ ∈ writer.finish.entries := by
  have hdirectory : "META-INF/" ≠ name := by
    rintro rfl
    exact absurd hfile (by decide)
  simp [ArchiveWriter.writeFile, hancestors, hfile, hother, hdirectory,
    ArchiveWriter.putDirectories, ArchiveWriter.put, bind, Except.bind, Archive.entryOf,
    manifestOnly, ArchiveWriter.finish]

/-- A jar with a class of release 16. -/
def newerJar : Archive :=
  ⟨[⟨"A.class", some Converter.newerBytes⟩]⟩

/-- In release 8 the class in the jar has the version of that release. -/
theorem convert_runs_on_target_newerJar :
    ∃ archive session',
      convert ⟨⟨8, by decide, by decide⟩, none⟩ (.objectOnly _) newerJar.members {} {} =
        (.ok (archive, true), session') ∧
      ⟨"A.class", some branchingBytes⟩ ∈ archive.entries ∧
      (⟨52, 0⟩ : Version).major ≤ (⟨8, by decide, by decide⟩ : Release).version.major := by
  obtain ⟨writer, hwriter, hentry⟩ := writeFile_behindManifest "A.class" branchingBytes
    (by decide) (by decide) (by decide)
  obtain ⟨session, hbytes⟩ := Converter.convertBytes_newerBytes (.objectOnly Session)
  have hmodule : withoutModule newerJar.members {} {} = (.ok ({}, {}), {}) := by
    refine task_bind_eq_ok.mpr ⟨none, _, task_lift_eq_ok.mpr ⟨?_, rfl⟩, rfl⟩
    rw [Archive.readFrom_members]
    rfl
  have hfile : (Draft.mk (manifestOnly {}) (some {}) true).addMember
      ⟨⟨8, by decide, by decide⟩, none⟩ (.objectOnly _)
      (.ofEntry ⟨"A.class", some Converter.newerBytes⟩) {} =
        (.ok ⟨writer, some {}, true⟩, session) := by
    rw [addMember_ofEntry (by decide)]
    refine task_bind_eq_ok.mpr ⟨_, session, task_within_eq_ok.mpr hbytes, ?_⟩
    exact task_lift_eq_ok.mpr ⟨bind_eq_ok.mpr ⟨writer, hwriter, rfl⟩, rfl⟩
  have hconvert : convert ⟨⟨8, by decide, by decide⟩, none⟩ (.objectOnly _) newerJar.members {} {} =
      (.ok (writer.finish, true), session) := by
    refine (convert_below (by decide)).mpr ⟨_, _, _, hmodule, _, ⟨writer, some {}, true⟩,
      ⟨writer, some {}, true⟩, write_manifest {} _, ?_, rfl, rfl, rfl⟩
    exact task_bind_eq_ok.mpr ⟨_, _, hfile, rfl⟩
  have hversion : Version.ofBytes branchingBytes = .ok ⟨52, 0⟩ := rfl
  obtain ⟨hmajor, -⟩ := convert_runs_on_target hconvert ⟨"A.class", some branchingBytes⟩ hentry
    branchingBytes rfl ⟨52, 0⟩ hversion (by decide)
  exact ⟨writer.finish, session, hconvert, hentry, hmajor (by decide)⟩

/-- A jar that only has the description of a module, which is of release 17 and breaks off. -/
def moduleJar : Archive :=
  ⟨[⟨"module-info.class", some [0xca, 0xfe, 0xba, 0xbe, 0x00, 0x00, 0x00, 0x3d]⟩]⟩

/-- The description of the module keeps its version, which is newer than release 11. -/
theorem convert_keeps_version_moduleJar :
    ∃ archive, ∃ entry ∈ archive.entries, ∃ bytes version,
      convert ⟨⟨11, by decide, by decide⟩, none⟩ (.objectOnly _) moduleJar.members {} {} =
        (.ok (archive, true), {}) ∧
      entry.content = some bytes ∧ Text.endsIn ArchiveEntry.classSuffix entry.name = true ∧
      Version.ofBytes bytes = .ok version ∧
      ¬ version.major ≤ (⟨11, by decide, by decide⟩ : Release).version.major := by
  let bytes : Bytes := [0xca, 0xfe, 0xba, 0xbe, 0x00, 0x00, 0x00, 0x3d]
  obtain ⟨writer, hwriter, hentry⟩ := writeFile_behindManifest "module-info.class" bytes
    (by decide) (by decide) (by decide)
  have hfile : (Draft.mk (manifestOnly {}) none true).addMember
      ⟨⟨11, by decide, by decide⟩, none⟩ (.objectOnly _)
      (.ofEntry ⟨"module-info.class", some bytes⟩) {} = (.ok ⟨writer, none, true⟩, {}) := by
    rw [addMember_ofEntry (by decide)]
    have hother : Draft.isClass "module-info.class" = false := by decide
    show Draft.addFile _ _ _ "module-info.class" bytes {} = _
    rw [Draft.addFile, hother, if_neg (by decide)]
    exact task_lift_eq_ok.mpr ⟨bind_eq_ok.mpr ⟨writer, hwriter, rfl⟩, rfl⟩
  have hconvert : convert ⟨⟨11, by decide, by decide⟩, none⟩ (.objectOnly _) moduleJar.members {}
      {} = (.ok (writer.finish, true), {}) := by
    refine (convert_above (by decide)).mpr ⟨_, ⟨writer, none, true⟩, ⟨writer, none, true⟩,
      write_manifest {} none, ?_, rfl, rfl, rfl⟩
    exact task_bind_eq_ok.mpr ⟨_, _, hfile, rfl⟩
  exact ⟨writer.finish, _, hentry, bytes, ⟨61, 0⟩, hconvert, rfl, by decide, rfl,
    by decide⟩

end Jar

end Downlevel
