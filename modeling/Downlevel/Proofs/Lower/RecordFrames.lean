import Downlevel.Proofs.CommonAncestor
import Downlevel.Proofs.Lower.Conversion
import Downlevel.Proofs.Lower.Written
import Downlevel.Proofs.StackMap.Classes

/-!
# Records in the frames of converted classes

A class is brought down before it is written, so that no record is left in it.  But its frames are
computed when it is written, and then common super classes come from a lookup that knows the other
classes as they were.  There records still have the super class of all records, and where two of them
meet it is the class that they have in common; so a frame may name a class that older releases do not
have.

That is the only way for it to get there.  If a method does not mention the super class of records
itself, and if it does not mention two different records, then no frame names that class that is found
for the method in the class file.

* `Method.Mentions` — the classes that a method is about before any frames are merged;
* `Method.Framed.not_isAbout` — a frame is about a class only if the method mentions it or two classes
  that derive from it;
* `Converter.convertBytes_frames` — what that says of a converted class file and the super class of
  records;
* `convertBytes_frames_meetingRecords` — where two records meet, the class file names it.
-/

namespace Downlevel

open Hierarchy Downlevel.Task

section Sessions

variable {lookup : Lookup} {table : SymbolTable}

namespace SymbolTable

/-- Looking for the class that declares a method leaves the memory alone. -/
theorem findDeclaring_keeps (query : CallQuery) (depth : Nat) (owner : ClassName) :
    Keeps (Remembers lookup) (table.findDeclaring query depth owner) := by
  induction depth generalizing owner with
  | zero =>
      unfold findDeclaring
      exact ensures_fail
  | succ depth ih =>
      have hall : ∀ parents found,
          Keeps (Remembers lookup) (table.findAllDeclaring query depth found parents) := by
        intro parents
        induction parents with
        | nil =>
            intro found
            unfold findAllDeclaring
            exact ensures_pure trivial
        | cons parent rest ihParents =>
            intro found
            unfold findAllDeclaring
            refine (ih parent).bind fun target _ => ?_
            split
            next target => exact ihParents (target.insert found)
            next => exact ihParents found
      unfold findDeclaring
      refine (keeps_lift _).bind fun outline _ => ?_
      split
      next => exact ensures_pure trivial
      next outline =>
        split
        next => exact ensures_pure trivial
        next =>
          refine (hall _ _).bind fun targets _ => ?_
          split
          next => exact ensures_pure trivial
          next => exact ensures_pure trivial
          next => exact (ensures_report _ _).bind fun _ _ => ensures_pure trivial

/-- Looking for where a call goes leaves the memory alone. -/
theorem widenCall_keeps (query : CallQuery) (owner : ClassName) :
    Keeps (Remembers lookup) (table.widenCall query owner) := by
  unfold widenCall
  split
  next => exact findDeclaring_keeps _ _ _
  next => exact ensures_pure trivial

/-- So does looking for the method that a call goes to. -/
theorem widenTarget_keeps (cls : ClassName) (context : String) (target : MethodRef) :
    Keeps (Remembers lookup) (table.widenTarget cls context target) := by
  refine ((widenCall_keeps _ _).bind fun found _ => ?_).within _
  split <;> exact ensures_pure trivial

/-- Widening the call of an instruction leaves the memory alone. -/
theorem widenInstruction_keeps (cls : ClassName) (context : String) (instruction : Instruction) :
    Keeps (Remembers lookup) (table.widenInstruction cls context instruction) := by
  unfold widenInstruction
  split
  next => exact (widenTarget_keeps _ _ _).bind fun _ _ => ensures_pure trivial
  next => exact (widenTarget_keeps _ _ _).bind fun _ _ => ensures_pure trivial
  next =>
    split
    next =>
      refine (widenTarget_keeps _ _ _).bind fun _ _ => ?_
      split <;> exact ensures_pure trivial
    next =>
      refine (widenTarget_keeps _ _ _).bind fun _ _ => ?_
      split <;> exact ensures_pure trivial
    next => exact ensures_pure trivial
  next => exact ensures_pure trivial

/-- Widening the calls in a class leaves the memory alone. -/
theorem widenCalls_keeps (cls : ClassFile) :
    Keeps (Remembers lookup) (table.widenCalls cls) := by
  have hmethod : ∀ method : Method,
      Keeps (Remembers lookup) (table.widenMethod cls.name method) := by
    intro method
    unfold widenMethod
    split
    next => exact ensures_pure trivial
    next code =>
      refine (ensures_mapM fun entry _ => ?_).bind fun _ _ => ensures_pure trivial
      exact (widenInstruction_keeps _ _ _).bind fun _ _ => ensures_pure trivial
  exact ((ensures_mapM fun method _ => hmethod method).bind fun _ _ => ensures_pure trivial).within _

/-- Looking at a symbol leaves the memory alone. -/
theorem look_keeps (cls : ClassName) (reference : Reference) :
    Keeps (Remembers lookup) (table.look cls reference) := by
  refine (keeps_lift _).bind fun isMissing _ => ?_
  split
  next => exact (ensures_report _ _).bind fun _ _ => ensures_pure trivial
  next => exact ensures_pure trivial

mutual

/-- A check leaves the memory alone. -/
theorem runCheck_keeps (cls : ClassName) (check : Check) :
    Keeps (Remembers lookup) (table.runCheck cls check) := by
  cases check with
  | single reference =>
      rw [runCheck]
      exact look_keeps cls reference
  | guarded first rest =>
      rw [runCheck]
      refine (look_keeps cls first).bind fun found _ => ?_
      split
      next => exact ensures_pure trivial
      next => exact runChecks_keeps cls false rest
  | upToFirst checks =>
      rw [runCheck]
      exact runUpToFirst_keeps cls checks
  | inMethod name descriptor check =>
      rw [runCheck]
      exact (runCheck_keeps cls check).within _

/-- So do checks one after the other. -/
theorem runChecks_keeps (cls : ClassName) (reported : Bool) (checks : List Check) :
    Keeps (Remembers lookup) (table.runChecks cls reported checks) := by
  cases checks with
  | nil =>
      rw [runChecks]
      exact ensures_pure trivial
  | cons check rest =>
      rw [runChecks]
      exact (runCheck_keeps cls check).bind fun found _ => runChecks_keeps cls _ rest

/-- So do checks up to the first that reports something. -/
theorem runUpToFirst_keeps (cls : ClassName) (checks : List Check) :
    Keeps (Remembers lookup) (table.runUpToFirst cls checks) := by
  cases checks with
  | nil =>
      rw [runUpToFirst]
      exact ensures_pure trivial
  | cons check rest =>
      rw [runUpToFirst]
      refine (runCheck_keeps cls check).bind fun found _ => ?_
      split
      next => exact ensures_pure trivial
      next => exact runUpToFirst_keeps cls rest

end

end SymbolTable

namespace Converter

variable (converter : Converter)

/-- Bringing a class down leaves the memory alone. -/
theorem convert_keeps_memory (cls : ClassFile) :
    Keeps (Remembers lookup) (converter.convert cls) := by
  have hnote : Keeps (Remembers lookup) (Task.note (.converting cls.name)) :=
    ensures_modify fun _ hsession => hsession
  have hwiden : ∀ lowered, Keeps (Remembers lookup) (converter.widen lowered) := by
    intro lowered
    unfold widen
    split
    next table _ => exact SymbolTable.widenCalls_keeps lowered
    next => exact ensures_pure trivial
  refine (keeps_lift _).bind fun stages _ => ?_
  split
  next => exact ensures_pure trivial
  next stages =>
    refine hnote.bind fun _ _ => (keeps_lift _).bind fun lowered _ => ?_
    exact (hwiden lowered).bind fun widened _ => (keeps_lift _).bind fun _ _ => ensures_pure trivial

/-- Checking a class leaves the memory alone. -/
theorem check_keeps_memory (cls : ClassFile) :
    Keeps (Remembers lookup) (converter.check cls) := by
  unfold check
  split
  next table _ =>
    exact ((SymbolTable.runChecks_keeps _ _ _).bind fun _ _ => ensures_pure trivial).within _
  next => exact ensures_pure trivial

end Converter

end Sessions

namespace Encode

section Writing

variable {σ : Type} {supers : SuperClasses σ} {I : σ → Prop}

/-- Working out the frames of code keeps an invariant that finding common super classes keeps. -/
theorem analysis_keeps (hclosed : supers.Closed I fun _ => True) (computeFrames : Bool)
    (cls : ClassName) (method : Method) (code : Code) (maxLocals : UInt16) :
    Keeps I (analysis supers computeFrames cls method code maxLocals) := by
  have hany : ∀ type : VType, type.Within fun _ => True := fun _ _ _ => trivial
  have hanalyze : ∀ {known : SuperClasses σ}, known.Closed I (fun _ => True) →
      Keeps I (Frame.analyze known cls method code maxLocals) :=
    fun h => (Frame.analyze_ensures h (hany _) (fun type _ => hany type) maxLocals).keeps
  unfold analysis
  split
  next => exact ((hanalyze hclosed).within _).bind fun found _ => ensures_pure trivial
  next =>
    intro s hs
    have hobjectOnly : (SuperClasses.objectOnly σ).Closed I fun _ => True :=
      fun a b _ _ _ => ensures_pure (hany _)
    have hafter := (hanalyze hobjectOnly s hs).1
    refine ⟨?_, fun _ _ => trivial⟩
    dsimp only
    generalize Frame.analyze (.objectOnly σ) cls method code maxLocals s = outcome at hafter
    obtain ⟨error | found, after⟩ := outcome
    · dsimp only
      split
      next => exact hafter
      next => split <;> exact hafter
    · exact hafter

/-- Writing members keeps what writing each of them keeps. -/
theorem members_keeps {α : Type} {cls : ClassName} {what : String} {items : List α}
    {member : α → Emit σ Bytes} (h : ∀ item ∈ items, Emit.Keeps I (member item)) :
    Emit.Keeps I (members cls what items member) :=
  (Emit.keeps_lift _).bind fun _ => (Emit.keeps_mapM h).bind fun _ => Emit.keeps_pure _

variable (hclosed : supers.Closed I fun _ => True) (computeFrames : Bool)

include hclosed

/-- Writing the code of a method keeps such an invariant. -/
theorem codeAttribute_keeps (cls : ClassName) (method : Method) :
    Emit.Keeps I (codeAttribute supers computeFrames cls method) := by
  unfold codeAttribute
  split
  next => exact Emit.keeps_pure _
  next body _ =>
    have hcode : Emit.Keeps I (code supers computeFrames cls method body) := by
      refine (Emit.keeps_lift _).bind fun maxLocals => ?_
      refine (Emit.keeps_task (analysis_keeps hclosed _ _ _ _ _)).bind fun found => ?_
      exact (Emit.keeps_pool _).bind fun _ => Emit.keeps_pure _
    exact (hcode.within _).bind fun _ => (Emit.keeps_pool _).bind fun _ => Emit.keeps_pure _

/-- Writing a method keeps such an invariant. -/
theorem method_keeps (cls : ClassName) (method : Method) :
    Emit.Keeps I (Encode.method supers computeFrames cls method) := by
  refine (Emit.keeps_pool _).bind fun _ => (Emit.keeps_pool _).bind fun _ => ?_
  refine (Emit.keeps_pool _).bind fun _ => ?_
  refine (codeAttribute_keeps hclosed computeFrames cls method).bind fun _ => ?_
  exact (Emit.keeps_pool _).bind fun _ => (Emit.keeps_lift _).bind fun _ => Emit.keeps_pure _

/-- Writing a class keeps such an invariant. -/
theorem toBytes_keeps (cls : ClassFile) : Keeps I (cls.toBytes supers computeFrames) := by
  have hbehind : Emit.Keeps I (behindPool supers (computeFrames && cls.version.hasFrames) cls) := by
    refine (Emit.keeps_pool _).bind fun _ => (Emit.keeps_pool _).bind fun _ => ?_
    refine (members_keeps fun _ _ => Emit.keeps_pool _).bind fun _ => ?_
    refine (members_keeps fun _ _ => Emit.keeps_pool _).bind fun _ => ?_
    refine (members_keeps fun m _ => (method_keeps hclosed _ cls.name m).within _).bind
      fun _ => ?_
    exact (Emit.keeps_pool _).bind fun _ => (Emit.keeps_pool _).bind fun _ =>
      (Emit.keeps_lift _).bind fun _ => Emit.keeps_pure _
  exact ((hbehind {}).bind fun _ _ => (keeps_lift _).bind fun _ _ => ensures_pure trivial).within _

end Writing

end Encode

/-- A method is about a class by itself, before any frames are merged. -/
def Method.Mentions (cls : ClassName) (method : Method) (base : ClassName) : Prop :=
  ∃ code type, method.code = some code ∧ method.Brings cls code type ∧ type.IsAbout base

/-- Every release has class files with frames. -/
theorem Release.hasFrames_version (release : Release) : release.version.hasFrames = true := by
  obtain ⟨number, lowest, highest⟩ := release
  interval_cases number <;> rfl

/-- No release has class files that are too new to be read. -/
theorem Release.version_le (release : Release) : release.version.major ≤ Version.newestMajor := by
  have hhighest : release.number + 44 ≤ 67 := Nat.add_le_add_right release.le_highest 44
  show (release.number + 44).toUInt16 ≤ 67
  rw [UInt16.le_iff_toNat_le, UInt16.toNat_ofNat_of_lt' (hhighest.trans_lt (by decide))]
  exact hhighest

/-- A converted class has the version of the target, and no attributes that are kept as they were
read. -/
theorem Converter.convert_namesApart {converter : Converter} {cls lowered : ClassFile}
    {session session' : Session}
    (h : converter.convert cls session = (.ok (some lowered), session')) :
    lowered.version = converter.target.version ∧ ∀ method ∈ lowered.methods, method.NamesApart := by
  obtain ⟨_, _, _, _, widened, stripped, -, -, -, hstrip, rfl⟩ := convert_steps h
  have hstrip := within_eq_ok.mp hstrip
  cases hstrip
  refine ⟨rfl, fun method hmem => ?_⟩
  obtain ⟨before, -, rfl⟩ := List.mem_map.mp hmem
  refine ⟨List.not_mem_nil, fun code hcode => ?_⟩
  obtain ⟨_, -, rfl⟩ := Option.map_eq_some_iff.mp hcode
  exact List.not_mem_nil

section Records

variable {lookup : Lookup} {goal : ClassName}

/-- A type that is listed is about the class that the type itself is about. -/
theorem isAbout_placed {layout : Layout} {type : VType} {base : ClassName} :
    (type.placed layout).IsAbout base ↔ type.IsAbout base := by
  cases type <;> simp [VType.placed, VType.IsAbout]

/-- **A frame is about a class only if its method is**, or if the method is about two classes that
derive from it. -/
theorem Method.Framed.not_isAbout {cls : ClassName} {method : Method} {s : Session}
    {frames : List (Nat × Frame)} (h : method.Framed (supers lookup) cls s frames)
    (hs : Remembers lookup s) (hobject : goal ≠ ClassName.javaObject)
    (hthrowable : goal ≠ ClassName.javaThrowable) (hmention : ¬ method.Mentions cls goal)
    (hsole : ∀ a b, method.Mentions cls a → method.Mentions cls b →
      lookup.Derives a goal → lookup.Derives b goal → a = b) :
    ∀ entry ∈ frames, ∀ type ∈ entry.2.locals ++ entry.2.stack, ¬ type.IsAbout goal := by
  unfold Method.Framed at h
  cases hcode : method.code with
  | none =>
      rw [hcode] at h
      cases h
      exact fun _ hentry => by cases hentry
  | some code =>
      rw [hcode] at h
      obtain ⟨locals, found, s', layout, body, -, hfound, -, htells⟩ := h
      have hbrings : ∀ type, method.Brings cls code type →
          type.Within fun base => lookup.Derives base goal → method.Mentions cls base :=
        fun type hbrought base habout _ => ⟨code, type, hcode, hbrought, habout⟩
      have hanalyze := Frame.analyze_ensures (supers_closed hobject hsole)
        (within_javaObject hobject) hbrings locals
      have hwithin := (hanalyze.run hs hfound).1
      intro entry hentry type hmem habout
      rcases htells.stands entry hentry with ⟨index, frame, _, hframe, -, heq, -⟩ | ⟨-, -, heq⟩
      · have hkept := hwithin frame (Array.mem_of_getElem? hframe)
        have hgoal : ∀ own ∈ frame.locals ++ frame.stack, ¬ own.IsAbout goal := by
          intro own hown hon
          refine hmention ?_
          rcases List.mem_append.mp hown with hin | hin
          · exact hkept.locals own hin goal hon (.self goal)
          · exact hkept.stack own hin goal hon (.self goal)
        rw [heq] at hmem
        have hmem : type ∈ (frame.locals ++ frame.stack).map (VType.placed layout) := by
          rwa [List.map_append]
        obtain ⟨own, hown, rfl⟩ := List.mem_map.mp hmem
        exact hgoal own hown (isAbout_placed.mp habout)
      · -- In code that is never executed there is only what is thrown.
        rw [heq] at hmem
        obtain ⟨name, rfl, hbase⟩ := habout
        obtain rfl : ClassName.javaThrowable = name := by
          simpa [List.mem_replicate, eq_comm] using hmem
        rw [baseClass?_plain (by simp [ClassName.javaThrowable])] at hbase
        exact hthrowable (by simpa using hbase.symm)

/-- **Frames of converted classes name the super class of records only where two records meet.**
With super classes from a lookup, a class file is written anew in the steps of a conversion, and what
is remembered of super classes stays sound.  In the class file there are frames for each method.  None
of them is about the super class of records, unless the method mentions that class itself, or two
different classes that derive from it. -/
theorem Converter.convertBytes_frames {converter : Converter} {lookup : Lookup}
    {bytes written : Bytes} {passed : Bool} {session session' : Session}
    (hsession : Remembers lookup session)
    (hrun : converter.convertBytes (supers lookup) bytes session =
      (.ok (.renewed written passed), session')) :
    Remembers lookup session' ∧
      ∃ cls lowered between checked frames, ClassFile.ofBytes bytes = .ok cls ∧
        converter.convert cls session = (.ok (some lowered), between) ∧
        converter.check lowered between = (.ok passed, checked) ∧
        lowered.toBytes (supers lookup) true checked = (.ok written, session') ∧
        (∀ start, StackMap.ofBytes start written = .ok frames) ∧
        List.Forall₂ (fun method found => ¬ method.Mentions lowered.name ClassName.javaRecord →
          (∀ a b, method.Mentions lowered.name a → method.Mentions lowered.name b →
            lookup.Derives a ClassName.javaRecord → lookup.Derives b ClassName.javaRecord → a = b) →
          ∀ entry ∈ found, ∀ type ∈ entry.2.locals ++ entry.2.stack,
            ¬ type.IsAbout ClassName.javaRecord) lowered.methods frames := by
  obtain ⟨cls, lowered, between, checked, hread, hconvert, hcheck, hwrite⟩ :=
    convertBytes_renewed.mp hrun
  have hbetween := ((convert_keeps_memory converter cls).run hsession hconvert).2
  have hchecked := ((check_keeps_memory converter lowered).run hbetween hcheck).2
  have hsession' := ((Encode.toBytes_keeps supers_keep true lowered).run hchecked hwrite).2
  obtain ⟨hversion, hnames⟩ := convert_namesApart hconvert
  obtain ⟨frames, hframes, hall⟩ := ClassFile.toBytes_frames
    (hversion ▸ converter.target.hasFrames_version) (hversion ▸ converter.target.version_le) hnames
    (Encode.method_keeps supers_keep true lowered.name) hchecked hwrite
  refine ⟨hsession', cls, lowered, between, checked, frames, hread, hconvert, hcheck, hwrite, hframes,
    hall.imp ?_⟩
  rintro method found ⟨t, ht, hframed⟩ hmention hsole
  exact hframed.not_isAbout ht (by decide) (by decide) hmention hsole

end Records

section Example

/-- A lookup that knows two records, but not the super class of records. -/
def records : Lookup :=
  .ofOutlines [{ name := "a/A", superClass := some ClassName.javaRecord },
    { name := "a/B", superClass := some ClassName.javaRecord }]

/-- Code with an instruction that is never executed. -/
def twiceCode : Code where
  maxStack := some 0
  maxLocals := some 0
  instructions := [⟨none, .op .returnVoid⟩, ⟨none, .op .returnVoid⟩]

/-- A method that would return twice. -/
def twiceMethod : Method where
  access := { isStatic := true }
  name := "f"
  descriptor := "()V"
  code := some twiceCode

/-- A record of release 16 with that method. -/
def twiceRecord : ClassFile where
  version := ⟨60, 0⟩
  access := { isSuper := true }
  name := "a/A"
  superClass := some ClassName.javaRecord
  interfaces := []
  methods := [twiceMethod]

/-- The record as a plain class of release 8. -/
def twiceClass : ClassFile :=
  { twiceRecord with version := ⟨52, 0⟩, superClass := some ClassName.javaObject }

/-- The class file of the record. -/
def twiceBytes : Bytes :=
  [0xca, 0xfe, 0xba, 0xbe, 0x00, 0x00, 0x00, 0x3c, 0x00, 0x08, 0x01, 0x00, 0x03, 0x61, 0x2f, 0x41,
    0x07, 0x00, 0x01, 0x01, 0x00, 0x10, 0x6a, 0x61, 0x76, 0x61, 0x2f, 0x6c, 0x61, 0x6e, 0x67, 0x2f,
    0x52, 0x65, 0x63, 0x6f, 0x72, 0x64, 0x07, 0x00, 0x03, 0x01, 0x00, 0x01, 0x66, 0x01, 0x00, 0x03,
    0x28, 0x29, 0x56, 0x01, 0x00, 0x04, 0x43, 0x6f, 0x64, 0x65, 0x00, 0x20, 0x00, 0x02, 0x00, 0x04,
    0x00, 0x00, 0x00, 0x00, 0x00, 0x01, 0x00, 0x08, 0x00, 0x05, 0x00, 0x06, 0x00, 0x01, 0x00, 0x07,
    0x00, 0x00, 0x00, 0x0e, 0x00, 0x00, 0x00, 0x00, 0x00, 0x00, 0x00, 0x02, 0xb1, 0xb1, 0x00, 0x00,
    0x00, 0x00, 0x00, 0x00]

/-- The record is read from its bytes. -/
theorem ofBytes_twiceBytes : ClassFile.ofBytes twiceBytes = .ok twiceRecord := by
  unfold ClassFile.ofBytes Decode.cls Decode.method Decode.methodAttribute Decode.code
  rw [Decode.numberLabels_firstMet]
  decide +kernel

/-- In release 8 the record is a plain class. -/
theorem convert_twiceRecord :
    ∃ session, Converter.convert ⟨⟨8, by decide, by decide⟩, none⟩ twiceRecord {} =
      (.ok (some twiceClass), session) := by
  have houtcome : (Converter.convert ⟨⟨8, by decide, by decide⟩, none⟩ twiceRecord {}).1 =
      .ok (some twiceClass) := rfl
  exact ⟨_, Prod.ext houtcome rfl⟩

/-- The class file of the class in release 8. -/
def twiceWritten : Bytes :=
  [0xca, 0xfe, 0xba, 0xbe, 0x00, 0x00, 0x00, 0x34, 0x00, 0x0b, 0x01, 0x00, 0x03, 0x61, 0x2f, 0x41,
    0x07, 0x00, 0x01, 0x01, 0x00, 0x10, 0x6a, 0x61, 0x76, 0x61, 0x2f, 0x6c, 0x61, 0x6e, 0x67, 0x2f,
    0x4f, 0x62, 0x6a, 0x65, 0x63, 0x74, 0x07, 0x00, 0x03, 0x01, 0x00, 0x01, 0x66, 0x01, 0x00, 0x03,
    0x28, 0x29, 0x56, 0x01, 0x00, 0x13, 0x6a, 0x61, 0x76, 0x61, 0x2f, 0x6c, 0x61, 0x6e, 0x67, 0x2f,
    0x54, 0x68, 0x72, 0x6f, 0x77, 0x61, 0x62, 0x6c, 0x65, 0x07, 0x00, 0x07, 0x01, 0x00, 0x0d, 0x53,
    0x74, 0x61, 0x63, 0x6b, 0x4d, 0x61, 0x70, 0x54, 0x61, 0x62, 0x6c, 0x65, 0x01, 0x00, 0x04, 0x43,
    0x6f, 0x64, 0x65, 0x00, 0x20, 0x00, 0x02, 0x00, 0x04, 0x00, 0x00, 0x00, 0x00, 0x00, 0x01, 0x00,
    0x08, 0x00, 0x05, 0x00, 0x06, 0x00, 0x01, 0x00, 0x0a, 0x00, 0x00, 0x00, 0x20, 0x00, 0x01, 0x00,
    0x00, 0x00, 0x00, 0x00, 0x02, 0xb1, 0xbf, 0x00, 0x00, 0x00, 0x01, 0x00, 0x09, 0x00, 0x00, 0x00,
    0x0c, 0x00, 0x01, 0xff, 0x00, 0x01, 0x00, 0x00, 0x00, 0x01, 0x07, 0x00, 0x08, 0x00, 0x00]

/-- The class is written as its bytes. -/
theorem toBytes_twiceClass {σ : Type} (supers : SuperClasses σ) (s : σ) :
    twiceClass.toBytes supers true s = (.ok twiceWritten, s) := by
  cbv

/-- What is thrown in place of the second instruction is in the only frame. -/
theorem frames_twiceWritten (start : MethodAccess → MethodName → MethodDescriptor → List VType) :
    StackMap.ofBytes start twiceWritten = .ok [[(1, ⟨[], [.object ClassName.javaThrowable]⟩)]] :=
  rfl

/-- The only class that the method is about is its own. -/
theorem eq_of_mentions_twiceMethod {base : ClassName} (h : twiceMethod.Mentions "a/A" base) :
    base = "a/A" := by
  obtain ⟨code, type, hcode, hbrings, name, hname, hbase⟩ := h
  cases hcode
  cases hbrings with
  | receiver =>
      cases hname
      rw [baseClass?_plain (by simp)] at hbase
      simpa using hbase.symm
  | parameter hparse hmem =>
      have hnone : MethodType.parse twiceMethod.descriptor = .ok ⟨[], none⟩ := by cbv
      rw [hnone] at hparse
      cases hparse
      cases hmem
  | caught hmem => cases hmem
  | instruction hmem hinstruction =>
      have hreturn : ∀ entry ∈ twiceCode.instructions, entry.instruction = .op .returnVoid := by
        decide
      rw [hreturn _ hmem] at hinstruction
      cases hinstruction with
      | result hcall => cases hcall

/-- In release 8 the class file of the record is the one of a plain class. -/
theorem convertBytes_twiceBytes (supers : SuperClasses Session) :
    ∃ session, Converter.convertBytes ⟨⟨8, by decide, by decide⟩, none⟩ supers twiceBytes {} =
      (.ok (.renewed twiceWritten true), session) := by
  obtain ⟨session, hconvert⟩ := convert_twiceRecord
  exact ⟨session, Converter.convertBytes_renewed.mpr ⟨_, _, _, _, ofBytes_twiceBytes, hconvert, rfl,
    toBytes_twiceClass supers session⟩⟩

/-- The frame of a class that was a record does not name the super class of records, though the lookup
knows the class as a record. -/
theorem convertBytes_frames_twiceRecord :
    ∃ session, Converter.convertBytes ⟨⟨8, by decide, by decide⟩, none⟩ (supers records) twiceBytes {} =
        (.ok (.renewed twiceWritten true), session) ∧ Remembers records session ∧
      ∃ entry, (∀ start, StackMap.ofBytes start twiceWritten = .ok [[entry]]) ∧
        ∀ type ∈ entry.2.locals ++ entry.2.stack, ¬ type.IsAbout ClassName.javaRecord := by
  obtain ⟨session, hrun⟩ := convertBytes_twiceBytes (supers records)
  obtain ⟨hsession, cls, lowered, between, checked, frames, hread, hconvert, -, -, hframes, hall⟩ :=
    Converter.convertBytes_frames (remembers_start []) hrun
  cases ofBytes_twiceBytes.symm.trans hread
  obtain ⟨after, hagain⟩ := convert_twiceRecord
  have hlowered : twiceClass = lowered := by
    simpa using congrArg Prod.fst (hagain.symm.trans hconvert)
  subst hlowered
  cases (frames_twiceWritten fun _ _ _ => []).symm.trans (hframes fun _ _ _ => [])
  refine ⟨session, hrun, hsession, _, frames_twiceWritten, ?_⟩
  have hmethod := (List.forall₂_cons.mp hall).1
  refine hmethod (fun hrecord => ?_) (fun a b ha hb _ _ => ?_) _ List.mem_cons_self
  · have hname := eq_of_mentions_twiceMethod hrecord
    revert hname
    decide
  · exact (eq_of_mentions_twiceMethod ha).trans (eq_of_mentions_twiceMethod hb).symm

/-- Code that has one of two classes on the stack, depending on a condition. -/
def meetingCode : Code where
  maxStack := some 1
  maxLocals := some 1
  instructions := [⟨none, .load .int 0⟩, ⟨none, .branch .eq ⟨0⟩⟩, ⟨none, .op .aconstNull⟩,
    ⟨none, .checkcast "a/A"⟩, ⟨none, .goto ⟨1⟩⟩, ⟨some ⟨0⟩, .op .aconstNull⟩,
    ⟨none, .checkcast "a/B"⟩, ⟨some ⟨1⟩, .op .areturn⟩]

/-- A method with that code. -/
def meetingMethod : Method where
  access := { isStatic := true }
  name := "f"
  descriptor := "(I)Ljava/lang/Object;"
  code := some meetingCode

/-- A class of release 16 with that method. -/
def meetingClass : ClassFile where
  version := ⟨60, 0⟩
  access := { isSuper := true }
  name := "a/Main"
  superClass := some ClassName.javaObject
  interfaces := []
  methods := [meetingMethod]

/-- The class file of that class. -/
def meetingBytes : Bytes :=
  [0xca, 0xfe, 0xba, 0xbe, 0x00, 0x00, 0x00, 0x3c, 0x00, 0x0c, 0x01, 0x00, 0x06, 0x61, 0x2f, 0x4d,
    0x61, 0x69, 0x6e, 0x07, 0x00, 0x01, 0x01, 0x00, 0x10, 0x6a, 0x61, 0x76, 0x61, 0x2f, 0x6c, 0x61,
    0x6e, 0x67, 0x2f, 0x4f, 0x62, 0x6a, 0x65, 0x63, 0x74, 0x07, 0x00, 0x03, 0x01, 0x00, 0x03, 0x61,
    0x2f, 0x41, 0x07, 0x00, 0x05, 0x01, 0x00, 0x03, 0x61, 0x2f, 0x42, 0x07, 0x00, 0x07, 0x01, 0x00,
    0x04, 0x43, 0x6f, 0x64, 0x65, 0x01, 0x00, 0x01, 0x66, 0x01, 0x00, 0x15, 0x28, 0x49, 0x29, 0x4c,
    0x6a, 0x61, 0x76, 0x61, 0x2f, 0x6c, 0x61, 0x6e, 0x67, 0x2f, 0x4f, 0x62, 0x6a, 0x65, 0x63, 0x74,
    0x3b, 0x00, 0x20, 0x00, 0x02, 0x00, 0x04, 0x00, 0x00, 0x00, 0x00, 0x00, 0x01, 0x00, 0x08, 0x00,
    0x0a, 0x00, 0x0b, 0x00, 0x01, 0x00, 0x09, 0x00, 0x00, 0x00, 0x1c, 0x00, 0x01, 0x00, 0x01, 0x00,
    0x00, 0x00, 0x10, 0x1a, 0x99, 0x00, 0x0a, 0x01, 0xc0, 0x00, 0x06, 0xa7, 0x00, 0x07, 0x01, 0xc0,
    0x00, 0x08, 0xb0, 0x00, 0x00, 0x00, 0x00, 0x00, 0x00]

/-- The class is read from its bytes. -/
theorem ofBytes_meetingBytes : ClassFile.ofBytes meetingBytes = .ok meetingClass := by
  unfold ClassFile.ofBytes Decode.cls Decode.method Decode.methodAttribute Decode.code
  rw [Decode.numberLabels_firstMet]
  decide +kernel

/-- In release 8 the class is the same. -/
theorem convert_meetingClass :
    ∃ journal : Journal, Converter.convert ⟨⟨8, by decide, by decide⟩, none⟩ meetingClass {} =
      (.ok (some { meetingClass with version := ⟨52, 0⟩ }), { journal }) :=
  ⟨_, rfl⟩

/-- The class file of the class in release 8, if the two classes meet in the super class of records. -/
def meetingWritten : Bytes :=
  [0xca, 0xfe, 0xba, 0xbe, 0x00, 0x00, 0x00, 0x34, 0x00, 0x0f, 0x01, 0x00, 0x06, 0x61, 0x2f, 0x4d,
    0x61, 0x69, 0x6e, 0x07, 0x00, 0x01, 0x01, 0x00, 0x10, 0x6a, 0x61, 0x76, 0x61, 0x2f, 0x6c, 0x61,
    0x6e, 0x67, 0x2f, 0x4f, 0x62, 0x6a, 0x65, 0x63, 0x74, 0x07, 0x00, 0x03, 0x01, 0x00, 0x01, 0x66,
    0x01, 0x00, 0x15, 0x28, 0x49, 0x29, 0x4c, 0x6a, 0x61, 0x76, 0x61, 0x2f, 0x6c, 0x61, 0x6e, 0x67,
    0x2f, 0x4f, 0x62, 0x6a, 0x65, 0x63, 0x74, 0x3b, 0x01, 0x00, 0x03, 0x61, 0x2f, 0x41, 0x07, 0x00,
    0x07, 0x01, 0x00, 0x03, 0x61, 0x2f, 0x42, 0x07, 0x00, 0x09, 0x01, 0x00, 0x10, 0x6a, 0x61, 0x76,
    0x61, 0x2f, 0x6c, 0x61, 0x6e, 0x67, 0x2f, 0x52, 0x65, 0x63, 0x6f, 0x72, 0x64, 0x07, 0x00, 0x0b,
    0x01, 0x00, 0x0d, 0x53, 0x74, 0x61, 0x63, 0x6b, 0x4d, 0x61, 0x70, 0x54, 0x61, 0x62, 0x6c, 0x65,
    0x01, 0x00, 0x04, 0x43, 0x6f, 0x64, 0x65, 0x00, 0x20, 0x00, 0x02, 0x00, 0x04, 0x00, 0x00, 0x00,
    0x00, 0x00, 0x01, 0x00, 0x08, 0x00, 0x05, 0x00, 0x06, 0x00, 0x01, 0x00, 0x0e, 0x00, 0x00, 0x00,
    0x37, 0x00, 0x01, 0x00, 0x01, 0x00, 0x00, 0x00, 0x10, 0x1a, 0x99, 0x00, 0x0a, 0x01, 0xc0, 0x00,
    0x08, 0xa7, 0x00, 0x07, 0x01, 0xc0, 0x00, 0x0a, 0xb0, 0x00, 0x00, 0x00, 0x01, 0x00, 0x0d, 0x00,
    0x00, 0x00, 0x15, 0x00, 0x02, 0xff, 0x00, 0x0b, 0x00, 0x01, 0x01, 0x00, 0x00, 0xff, 0x00, 0x03,
    0x00, 0x01, 0x01, 0x00, 0x01, 0x07, 0x00, 0x0c, 0x00, 0x00]

/-- Where the two classes meet in the super class of records, the class is written as these bytes. -/
theorem toBytes_meetingClass {σ : Type} {supers : SuperClasses σ} {s s' : σ}
    (h : supers.common "a/B" "a/A" s = (.ok ClassName.javaRecord, s')) :
    ClassFile.toBytes supers true { meetingClass with version := ⟨52, 0⟩ } s =
      (.ok meetingWritten, s') := by
  obtain ⟨common⟩ := supers
  dsimp only at h
  cbv
  simp only [h]
  cbv

/-- The super class of records is in the second frame. -/
theorem frames_meetingWritten (start : MethodAccess → MethodName → MethodDescriptor → List VType) :
    StackMap.ofBytes start meetingWritten =
      .ok [[(11, ⟨[.int], []⟩), (15, ⟨[.int], [.object ClassName.javaRecord]⟩)]] := by
  cbv

/-- The method mentions only its own class and the two others. -/
theorem mem_of_mentions_meetingMethod {base : ClassName}
    (h : meetingMethod.Mentions "a/Main" base) : base ∈ ["a/Main", "a/A", "a/B"] := by
  obtain ⟨code, type, hcode, hbrings, name, rfl, hbase⟩ := h
  cases hcode
  have hname : name ∈ ["a/Main", "a/A", "a/B"] := by
    generalize htype : VType.object name = type at hbrings
    cases hbrings with
    | receiver =>
        cases htype
        exact List.mem_cons_self
    | parameter hparse hmem =>
        have hint : MethodType.parse meetingMethod.descriptor =
            .ok ⟨[.int], some (.object ClassName.javaObject)⟩ := by cbv
        rw [hint] at hparse
        cases hparse
        obtain rfl := List.mem_singleton.mp hmem
        cases htype
    | caught hmem => cases hmem
    | instruction hmem hinstruction =>
        simp only [meetingCode, List.mem_cons, List.not_mem_nil, or_false] at hmem
        -- What is left are the casts and the results of calls, and there are no calls.
        rcases hmem with rfl | rfl | rfl | rfl | rfl | rfl | rfl | rfl <;> cases hinstruction <;>
          first
          | (cases htype; decide)
          | cases ‹Instruction.callDescriptor? _ = some _›
  have hplain : ∀ element, name.toList ≠ '[' :: element := by
    simp only [List.mem_cons, List.not_mem_nil, or_false] at hname
    rcases hname with rfl | rfl | rfl <;> simp
  rw [baseClass?_plain hplain, String.ofList_toList] at hbase
  cases hbase
  exact hname

/-- The only super class that the lookup tells. -/
theorem super_records {name parent : ClassName} (h : records.Super name parent) :
    name ∈ ["a/A", "a/B"] ∧ parent = ClassName.javaRecord := by
  unfold Lookup.Super Lookup.superClass? at h
  cases hfound : records.resolve name with
  | error error =>
      rw [hfound] at h
      cases h
  | ok found =>
      rw [hfound] at h
      obtain ⟨outline, rfl, hsuper⟩ := Option.bind_eq_some_iff.mp (Except.ok.inj h)
      obtain ⟨hmem, rfl⟩ := Lookup.mem_of_resolve_ofOutlines hfound
      simp only [List.mem_cons, List.not_mem_nil, or_false] at hmem
      rcases hmem with rfl | rfl <;> (cases hsuper; simp)

/-- No class that the lookup knows is its own ancestor. -/
theorem acyclic_records : records.Acyclic := by
  intro name hcycle
  obtain ⟨first, hfirst, _⟩ := Relation.TransGen.head'_iff.mp hcycle
  obtain ⟨last, _, hlast⟩ := Relation.TransGen.tail'_iff.mp hcycle
  have hlow := (super_records hfirst).1
  rw [(super_records hlast).2] at hlow
  revert hlow
  decide

/-- Two records meet in the super class of records. -/
theorem common_records (journal : Journal) : ∃ session,
    common records "a/B" "a/A" { journal } = (.ok ClassName.javaRecord, session) := by
  have hresolve : ∀ name, records.resolve name = _ := Lookup.resolve_ofOutlines _
  have hrecord : records.Chain ClassName.javaRecord [ClassName.javaRecord, ClassName.javaObject] :=
    .top (by decide) (superClass?_of_resolve (hresolve _))
  have hfirst : records.Chain "a/A" ["a/A", ClassName.javaRecord, ClassName.javaObject] :=
    .up (by decide) (super_of_resolve (hresolve _) rfl) hrecord
  have hsecond : records.Chain "a/B" ["a/B", ClassName.javaRecord, ClassName.javaObject] :=
    .up (by decide) (super_of_resolve (hresolve _) rfl) hrecord
  have hplain : ∀ name ∈ ["a/A", "a/B"], records.knowsInterface name = false := by
    intro name hname
    unfold Lookup.knowsInterface
    rw [hresolve]
    revert name
    decide
  have hanswers : records.Answers := Lookup.answers_ofOutlines _
  obtain ⟨_, hfound⟩ := common_found hanswers acyclic_records (by decide) (by decide) hsecond hfirst
  rw [hplain _ (by decide), hplain _ (by decide)] at hfound
  exact ⟨_, Prod.ext (hfound _ (recalls_start journal)).1 rfl⟩

/-- **Where two records meet, a frame names the super class of records**, though the lookup does not know
that class, the method does not mention it, and the converted class passes the check. -/
theorem convertBytes_frames_meetingRecords :
    records.resolve ClassName.javaRecord = .ok none ∧
      ClassFile.ofBytes meetingBytes = .ok meetingClass ∧
      (∃ session, Converter.convert ⟨⟨8, by decide, by decide⟩, none⟩ meetingClass {} =
        (.ok (some { meetingClass with version := ⟨52, 0⟩ }), session)) ∧
      (∀ method ∈ meetingClass.methods, ¬ method.Mentions "a/Main" ClassName.javaRecord) ∧
      (∃ session, Converter.convertBytes ⟨⟨8, by decide, by decide⟩, none⟩ (supers records) meetingBytes
        {} = (.ok (.renewed meetingWritten true), session)) ∧
      ∀ start, ∃ frames entry, StackMap.ofBytes start meetingWritten = .ok [frames] ∧ entry ∈ frames ∧
        .object ClassName.javaRecord ∈ entry.2.stack := by
  obtain ⟨journal, hconvert⟩ := convert_meetingClass
  obtain ⟨session, hcommon⟩ := common_records journal
  refine ⟨?_, ofBytes_meetingBytes, ⟨_, hconvert⟩, ?_, ⟨session, ?_⟩, fun start =>
    ⟨_, _, frames_meetingWritten start, List.mem_cons_of_mem _ List.mem_cons_self, List.mem_cons_self⟩⟩
  · unfold records
    rw [Lookup.resolve_ofOutlines]
    rfl
  · intro method hmem hrecord
    obtain rfl := List.mem_singleton.mp hmem
    have hbase := mem_of_mentions_meetingMethod hrecord
    revert hbase
    decide
  · exact Converter.convertBytes_renewed.mpr ⟨_, _, _, _, ofBytes_meetingBytes, hconvert, rfl,
      toBytes_meetingClass hcommon⟩

end Example

end Downlevel
