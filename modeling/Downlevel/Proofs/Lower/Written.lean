import Downlevel.Proofs.Lower.Conversion
import Downlevel.Proofs.RoundTrip.Class

/-!
# Class files that are written anew

A converter looks at the first bytes of a class file to see whether anything is to be done, and
reads the class, brings it down, checks it and writes it only then.  The version it decides by is
the version of the class that is read (`ClassFile.version_of_ofBytes`), so a class file that was
looked into is written anew, and one that comes out as it was has been old enough from the start.

* `Converter.convertBytes_renewed` — when a class file is written anew, and as which;
* `Converter.major_le_of_unchanged`, `Converter.version_of_renewed` — the version of what comes out.
-/

namespace Downlevel

namespace Version

variable {bytes : Bytes} {version : Version}

/-- What a class file begins with. -/
theorem ofBytes_front (version : Version) (rest : Bytes) :
    ofBytes (Bytes.ofU32 Decode.magic ++ Bytes.ofU16 version.minor ++ Bytes.ofU16 version.major ++
      rest) = .ok version := by
  have hreads : Parse.Reads Decode.version (Bytes.ofU32 Decode.magic ++
      Bytes.ofU16 version.minor ++ Bytes.ofU16 version.major) version := by
    rw [List.append_assoc]
    exact (Parse.reads_u32 _).bind
      ((Parse.reads_u16 _).bind ((Parse.reads_u16 _).finish (Parse.reads_pure _)))
  have hrun := hreads 0 rest
  rw [ofBytes, Cursor.start, hrun]
  rfl

/-- The second byte of a class file. -/
theorem second_of_ofBytes (h : ofBytes bytes = .ok version) :
    ∃ first rest, bytes = first :: 0xfe :: rest := by
  unfold ofBytes at h
  obtain ⟨found, hrun⟩ : ∃ found, Decode.version (Cursor.start bytes) = .ok found := by
    cases hrun : Decode.version (Cursor.start bytes) with
    | error error => simp [hrun, Except.map] at h
    | ok found => exact ⟨found, rfl⟩
  obtain ⟨word, between, hword, hrest⟩ := work_bind_eq_ok.mp hrun
  have hmagic : word = Decode.magic := by
    by_contra hother
    rw [if_neg hother] at hrest
    cases hrest
  unfold Parse.u32 Parse.quad at hword
  dsimp only [Cursor.start] at hword
  split at hword
  next a b c d rest =>
    obtain ⟨hvalue, -⟩ := Prod.mk.inj (Except.ok.inj hword)
    have hsum := Bytes.toNat_toU32 a b c d
    rw [hvalue, hmagic] at hsum
    have hnumber : Decode.magic.toNat = 0xcafebabe := rfl
    have ha := a.toNat_lt
    have hb := b.toNat_lt
    have hc := c.toNat_lt
    have hd := d.toNat_lt
    have hsecond : b = 0xfe := by
      rw [← UInt8.toNat_inj]
      change b.toNat = 0xfe
      omega
    exact ⟨a, c :: d :: rest, by rw [hsecond]⟩
  next => cases hword

end Version

namespace ClassFile

/-- An attribute of a class leaves its version alone. -/
theorem gives_classAttribute_version (table : Pool.Table) (name : String) (size : Nat)
    (state : ClassFile × Option (List Pool.Bootstrap)) :
    Parse.Gives (Decode.classAttribute table name size state) fun after =>
      after.1.version = state.1.version := by
  unfold Decode.classAttribute
  dsimp only
  split
  case h_1 => exact .after fun _ => Parse.gives_pure rfl
  case h_2 =>
    split
    all_goals repeat first
      | exact Parse.gives_pure rfl
      | refine .after fun _ => ?_

/-- The attributes of a class leave its version alone. -/
theorem gives_attributes_version (table : Pool.Table)
    (state : ClassFile × Option (List Pool.Bootstrap)) :
    Parse.Gives (Decode.attributes table (Decode.classAttribute table) state) fun after =>
      after.1.version = state.1.version := by
  refine .after fun count => Parse.gives_iterate (fun between hbetween => ?_) count.toNat rfl
  refine .after fun _ => .after fun name => .after fun size => ?_
  intro cursor after cursor' hrun
  rw [gives_classAttribute_version table name size.toNat between cursor after cursor' hrun, hbetween]

/-- Reading a class behind its pool leaves its version alone. -/
theorem gives_readBehind_version (found : Version × Pool.Table) :
    Parse.Gives (Encode.readBehind found) fun cls => cls.version = found.1 := by
  obtain ⟨version, table⟩ := found
  refine .after fun bits => .after fun _ => .after fun name => .after fun _ => ?_
  refine .after fun superClass => .after fun interfaces => .after fun _ => ?_
  refine .after fun _ => .after fun _ => ?_
  have hattributes := gives_attributes_version table
    ({ version, access := ClassAccess.ofBits bits, name, superClass, interfaces }, none)
  refine (hattributes.within _).bind fun after hafter => ?_
  exact .after fun _ => .after fun fields => .after fun methods => Parse.gives_pure hafter

/-- A class has the version that its bytes begin with. -/
theorem version_of_ofBytes {bytes : Bytes} {cls : ClassFile} (h : ofBytes bytes = .ok cls) :
    Version.ofBytes bytes = .ok cls.version := by
  obtain ⟨cursor, hrun⟩ : ∃ cursor, Decode.cls (Cursor.start bytes) = .ok (cls, cursor) := by
    unfold ofBytes at h
    cases hrun : Decode.cls (Cursor.start bytes) with
    | error error => simp [hrun, Except.map] at h
    | ok found =>
        rw [hrun] at h
        cases h
        exact ⟨found.2, rfl⟩
  unfold Decode.cls at hrun
  obtain ⟨⟨version, table⟩, behind, hheader, hrest⟩ := work_bind_eq_ok.mp hrun
  obtain ⟨found, between, hversion, hknown⟩ := work_bind_eq_ok.mp hheader
  have hfound : found = version := by
    split at hknown
    next => cases hknown
    next =>
      obtain ⟨_, _, -, hpure⟩ := work_bind_eq_ok.mp hknown
      cases hpure
      rfl
  have hkept : cls.version = version := gives_readBehind_version (version, table) _ _ _ hrest
  rw [Version.ofBytes, hversion, hkept, ← hfound]
  rfl

/-- A written class begins with its version. -/
theorem version_of_toBytes {σ : Type} {supers : SuperClasses σ} {computeFrames : Bool}
    {cls : ClassFile} {bytes : Bytes} {s s' : σ}
    (h : cls.toBytes supers computeFrames s = (.ok bytes, s')) :
    Version.ofBytes bytes = .ok cls.version := by
  obtain ⟨rest, pool, front, -, -, rfl⟩ := toBytes_run.mp h
  rw [List.append_assoc]
  exact Version.ofBytes_front cls.version _

end ClassFile

namespace Converter

variable {converter : Converter} {supers : SuperClasses Session} {bytes converted : Bytes}
  {passed : Bool} {session session' : Session}

/-- A class that needs no stages has no newer version than the target. -/
theorem major_le_of_stagesFrom {release : Release} {version : Version}
    (h : release.stagesFrom version = .ok none) : version.major ≤ release.version.major := by
  unfold Release.stagesFrom at h
  split at h
  next hle => exact hle
  next =>
    obtain ⟨source, -, hsome⟩ := bind_eq_ok.mp h
    cases hsome

/-- A class file that is left as it is has no newer version than the target. -/
theorem major_le_of_unchanged {version : Version}
    (h : converter.convertBytes supers bytes session = (.ok .unchanged, session'))
    (hversion : Version.ofBytes bytes = .ok version) :
    version.major ≤ converter.target.version.major := by
  unfold convertBytes at h
  obtain ⟨found, _, hlift, h⟩ := task_bind_eq_ok.mp h
  obtain ⟨hfound, rfl⟩ := task_lift_eq_ok.mp hlift
  obtain rfl : found = version := Except.ok.inj (hfound.symm.trans hversion)
  obtain ⟨stages, _, hlift', h⟩ := task_bind_eq_ok.mp h
  obtain ⟨hstages, rfl⟩ := task_lift_eq_ok.mp hlift'
  cases stages with
  | none => exact major_le_of_stagesFrom hstages
  | some stages =>
      obtain ⟨cls, _, hread, h⟩ := task_bind_eq_ok.mp h
      obtain ⟨hcls, rfl⟩ := task_lift_eq_ok.mp hread
      obtain ⟨outcome, _, hconvert, h⟩ := task_bind_eq_ok.mp h
      rw [task_within_eq_ok] at hconvert
      obtain rfl : cls.version = found :=
        Except.ok.inj ((ClassFile.version_of_ofBytes hcls).symm.trans hversion)
      cases outcome with
      | some converted => 
          obtain ⟨_, _, -, h⟩ := task_bind_eq_ok.mp h
          obtain ⟨_, _, -, h⟩ := task_bind_eq_ok.mp h
          cases (task_pure_eq_ok.mp h).1
      | none =>
          unfold convert at hconvert
          obtain ⟨again, _, hagain, hconvert⟩ := task_bind_eq_ok.mp hconvert
          obtain ⟨hsame, rfl⟩ := task_lift_eq_ok.mp hagain
          rw [hstages] at hsame
          cases hsame
          obtain ⟨_, _, -, hconvert⟩ := task_bind_eq_ok.mp hconvert
          obtain ⟨_, _, -, hconvert⟩ := task_bind_eq_ok.mp hconvert
          obtain ⟨_, _, -, hconvert⟩ := task_bind_eq_ok.mp hconvert
          obtain ⟨_, _, -, hconvert⟩ := task_bind_eq_ok.mp hconvert
          cases (task_pure_eq_ok.mp hconvert).1

/-- **A class file is written anew** exactly if it is read as a class that comes out of a conversion,
which is then checked and written. -/
theorem convertBytes_renewed :
    converter.convertBytes supers bytes session = (.ok (.renewed converted passed), session') ↔
      ∃ cls lowered between checked, ClassFile.ofBytes bytes = .ok cls ∧
        converter.convert cls session = (.ok (some lowered), between) ∧
        converter.check lowered between = (.ok passed, checked) ∧
        lowered.toBytes supers true checked = (.ok converted, session') := by
  unfold convertBytes
  constructor
  · intro h
    obtain ⟨version, _, hversion, h⟩ := task_bind_eq_ok.mp h
    obtain ⟨-, rfl⟩ := task_lift_eq_ok.mp hversion
    obtain ⟨stages, _, hstages, h⟩ := task_bind_eq_ok.mp h
    obtain ⟨-, rfl⟩ := task_lift_eq_ok.mp hstages
    cases stages with
    | none => cases (task_pure_eq_ok.mp h).1
    | some stages =>
        obtain ⟨cls, _, hread, h⟩ := task_bind_eq_ok.mp h
        obtain ⟨hcls, rfl⟩ := task_lift_eq_ok.mp hread
        obtain ⟨outcome, between, hconvert, h⟩ := task_bind_eq_ok.mp h
        rw [task_within_eq_ok] at hconvert
        cases outcome with
        | none => cases (task_pure_eq_ok.mp h).1
        | some lowered =>
            obtain ⟨found, checked, hcheck, h⟩ := task_bind_eq_ok.mp h
            obtain ⟨written, after, hwrite, h⟩ := task_bind_eq_ok.mp h
            rw [task_within_eq_ok] at hwrite
            obtain ⟨hvalue, rfl⟩ := task_pure_eq_ok.mp h
            cases hvalue
            exact ⟨cls, lowered, between, checked, hcls, hconvert, hcheck, hwrite⟩
  · rintro ⟨cls, lowered, between, checked, hcls, hconvert, hcheck, hwrite⟩
    obtain ⟨stages, _, _, _, _, _, hstages, -⟩ := convert_steps hconvert
    have hversion := ClassFile.version_of_ofBytes hcls
    refine task_bind_eq_ok.mpr ⟨_, _, task_lift_eq_ok.mpr ⟨hversion, rfl⟩, ?_⟩
    refine task_bind_eq_ok.mpr ⟨some stages, _, task_lift_eq_ok.mpr ⟨hstages, rfl⟩, ?_⟩
    refine task_bind_eq_ok.mpr ⟨cls, _, task_lift_eq_ok.mpr ⟨hcls, rfl⟩, ?_⟩
    refine task_bind_eq_ok.mpr ⟨some lowered, _, task_within_eq_ok.mpr hconvert, ?_⟩
    refine task_bind_eq_ok.mpr ⟨passed, checked, hcheck, ?_⟩
    exact task_bind_eq_ok.mpr ⟨converted, session', task_within_eq_ok.mpr hwrite, rfl⟩

/-- A class file that is written anew has the version of the target. -/
theorem version_of_renewed
    (h : converter.convertBytes supers bytes session = (.ok (.renewed converted passed), session')) :
    Version.ofBytes converted = .ok converter.target.version := by
  obtain ⟨cls, lowered, between, checked, -, hconvert, -, hwrite⟩ := convertBytes_renewed.mp h
  obtain ⟨_, _, _, _, _, _, -, -, -, -, rfl⟩ := convert_steps hconvert
  exact ClassFile.version_of_toBytes hwrite

section Example

/-- The class with a method that jumps, in release 16. -/
def newerClass : ClassFile :=
  { branchingClass with version := ⟨60, 0⟩ }

/-- The class file of that class. -/
def newerBytes : Bytes :=
  [0xca, 0xfe, 0xba, 0xbe, 0x00, 0x00, 0x00, 0x3c] ++ branchingBytes.drop 8

/-- The class is read from its bytes. -/
theorem ofBytes_newerBytes : ClassFile.ofBytes newerBytes = .ok newerClass := by
  unfold ClassFile.ofBytes Decode.cls Decode.method Decode.methodAttribute Decode.code
  rw [Decode.numberLabels_firstMet]
  decide +kernel

/-- In release 8 the class is the same but for its version. -/
theorem convert_newerClass :
    ∃ session, convert ⟨⟨8, by decide, by decide⟩, none⟩ newerClass {} =
      (.ok (some branchingClass), session) := by
  have houtcome : (convert ⟨⟨8, by decide, by decide⟩, none⟩ newerClass {}).1 =
      .ok (some branchingClass) := rfl
  exact ⟨_, Prod.ext houtcome rfl⟩

/-- In release 8 the class file is the same but for its version. -/
theorem convertBytes_newerBytes (supers : SuperClasses Session) :
    ∃ session, convertBytes ⟨⟨8, by decide, by decide⟩, none⟩ supers newerBytes {} =
      (.ok (.renewed branchingBytes true), session) := by
  obtain ⟨session, hconvert⟩ := convert_newerClass
  exact ⟨session, convertBytes_renewed.mpr ⟨_, _, _, _, ofBytes_newerBytes, hconvert, rfl,
    toBytes_branchingClass supers session⟩⟩

end Example

end Converter

end Downlevel
