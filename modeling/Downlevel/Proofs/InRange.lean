import Downlevel.Proofs.Faults
import Downlevel.Proofs.Lower.Resolving
import Downlevel.Proofs.StackMap.Written

/-!
# Writing within the bounds of lists

When code is written, instructions are known by their indices: those that wait to be looked at, those
that need a frame, and those that are replaced since they cannot be reached.  Only the first ones are
checked before frames are looked up for them, and they are checked only where jumps go.  So a handler of
exceptions that begins behind the last instruction is not refused like a jump that goes there: its index
is used, and it lies beyond the end of the list of frames.

Nothing else leaves the bounds of a list, and no class that was read has such a handler.

* `Fault.InRange`, `SuperClasses.Raises` — faults within bounds, and those that come from elsewhere;
* `ClassFile.HandlesBehind`, `Code.JumpsBehind` — where handlers and jumps go behind the end;
* `ClassFile.toBytes_inRange` — **only handlers behind the end leave the bounds of a list**;
* `ClassFile.outOfRange_catchingClass` — there they do.
-/

namespace Downlevel

/-- A fault is about something else than an item beyond the end of a list. -/
def Fault.InRange (fault : Fault) : Prop :=
  ∀ length index, fault ≠ .outOfRange length index

/-- Looking for common super classes fails with a fault. -/
def SuperClasses.Raises {σ : Type} (supers : SuperClasses σ) (fault : Fault) : Prop :=
  ∃ a b error, Fallible.Fails (supers.common a b) error ∧ fault ∈ error.parts

/-- Some instruction that execution can reach jumps behind the last instruction. -/
def Code.JumpsBehind (code : Code) : Prop :=
  ∃ index entry label, code.Reachable index ∧ code.instructions[index]? = some entry ∧
    label ∈ entry.instruction.targets ∧ code.lastLabel = some label

/-- Some method has a handler of exceptions that begins behind its last instruction. -/
def ClassFile.HandlesBehind (cls : ClassFile) : Prop :=
  ∃ method ∈ cls.methods, ∃ code, method.code = some code ∧ code.HandlesBehind

/-- Handlers begin at instructions if labels can be resolved. -/
theorem Code.Resolves.not_handlesBehind {code : Code} (h : code.Resolves) : ¬ code.HandlesBehind := by
  rintro ⟨range, hrange, hlast⟩
  have hplaced := h.inner _ (mem_of_range hrange).2.2
  have hlast : range.handler ∈ code.lastLabel.toList := Option.mem_toList.mpr hlast
  exact (List.nodup_append.mp h.nodup).2.2 _ hplaced _ hlast rfl

/-- Instructions that are reached do not jump behind the end if they jump to instructions only. -/
theorem Encode.FramesOf.not_jumpsBehind {code : Code} {frames : Array (Option Frame)}
    (h : Encode.FramesOf code frames) (hfound : Encode.Found code frames) : ¬ code.JumpsBehind := by
  rintro ⟨index, entry, label, hreach, hentry, hlabel, hlast⟩
  obtain ⟨frame, hframe⟩ := (hfound.reachable index).mpr hreach
  exact Nat.lt_irrefl _ (h.jumps index frame entry hframe hentry label hlabel _
    (Code.labelIndices_last hlast))

namespace Encode

section Written

variable {σ : Type} {supers : SuperClasses σ} {cls : ClassName} {method : Method} {code : Code}
  {pool pool' : Pool.Builder} {state state' : σ} {bytes : Bytes}

/-- What an analysis finds is what is known when code is written. -/
theorem found_analyze {maxLocals : UInt16} {found : Frame.Analysis}
    (h : Frame.analyze supers cls method code maxLocals state = (.ok found, state')) :
    Found code found.frames :=
  ⟨Frame.analyze_size h, (Frame.analyze_reachable h).1⟩

/-- **Code with frames that is written goes nowhere behind its end**: neither jumps nor handlers do. -/
theorem ends_of_code (h : Encode.code supers true cls method code pool state =
    (.ok (bytes, pool'), state')) : ¬ code.HandlesBehind ∧ ¬ code.JumpsBehind := by
  obtain ⟨locals, maxStack, known, body, -, hanalysis, hbody, -⟩ := code_run.mp h
  rcases analysis_found hanalysis with ⟨_, found, rfl, hfound⟩ | ⟨-, hnever⟩
  · have hframes := found_analyze hfound
    refine ⟨?_, (framesOf_analyze hfound).not_jumpsBehind hframes⟩
    rintro ⟨range, hrange, hlast⟩
    obtain ⟨placed, filled, layout, indices, table, between, attributes, rest, hitems, hlayout,
      hindices, -, hattributes, -, -⟩ := codeBody_eq_ok hbody
    have hformed (index : Nat) (frame : Frame)
        (hframe : found.frames[index]? = some (some frame)) :
        Frame.Paired frame.locals ∧ frame.locals.length = locals.toNat :=
      have hformed := Frame.analyze_created hfound hframe
      ⟨hformed.paired, hformed.length⟩
    obtain ⟨hsorted, -, -, hhandlers⟩ := frameIndices_spec rfl hindices
    obtain ⟨hbounds, -⟩ := lists_stackMapTable rfl (Layout.offsetOf_lt hlayout) hformed
      (fun _ _ hlt hle => hframes.offset_strict hitems hlayout hlt (Nat.le_of_lt hle)) hsorted
      hattributes
    obtain ⟨handler, hmem, hplace⟩ := hhandlers range hrange
    have hlt := hbounds handler hmem
    cases (Code.labelIndices_last hlast).symm.trans hplace
    exact Nat.lt_irrefl _ (hframes.size ▸ hlt)
  · cases hnever

/-- **Instructions that are replaced stand within the bytes of the code**, and each run of them has some
bytes. -/
theorem Found.deadOffsets_within {frames : Array (Option Frame)} (h : Found code frames)
    {placed : List (Option Label × CodeItem)} {layout : Layout}
    (hitems : items code.instructions pool = .ok (placed, pool'))
    (hlayout : Layout.ofItems placed code.lastLabel = .ok layout) :
    ∀ part ∈ (Context.mk code layout (some frames)).deadOffsets,
      part.1 < part.2 ∧ part.2 ≤ layout.chunks.flatten.length := by
  intro part hpart
  obtain ⟨run, hrun, rfl⟩ := h.mem_deadOffsets.mp hpart
  refine ⟨h.offset_strict hitems hlayout hrun.lt (h.size ▸ hrun.le), ?_⟩
  obtain ⟨hcount, -, -, hoffset, -⟩ := Layout.ofItems_starts hlayout
  have hend : layout.offsetOf layout.chunks.length = layout.chunks.flatten.length := by
    rw [hoffset, List.take_length]
  have hlength : layout.chunks.length = frames.size :=
    hcount.trans ((items_ne_nil hitems).1.trans h.size.symm)
  rw [← hend]
  rcases Nat.eq_or_lt_of_le hrun.le with hlast | hinside
  · rw [hlast, hlength, h.size]
  · refine Nat.le_of_lt (h.offset_strict hitems hlayout ?_ (Nat.le_of_eq hlength))
    rwa [hlength, h.size]

end Written

end Encode

namespace ClassFile

variable {σ : Type}

/-- All code of a class that is written was written. -/
theorem code_of_toBytes {supers : SuperClasses σ} {cls : ClassFile} {computeFrames : Bool}
    {bytes : Bytes} {state state' : σ}
    (h : cls.toBytes supers computeFrames state = (.ok bytes, state')) {method : Method}
    (hmethod : method ∈ cls.methods) {code : Code} (hcode : method.code = some code) :
    ∃ body before after s s', Encode.code supers (computeFrames && cls.version.hasFrames) cls.name
      method code before s = (.ok (body, after), s') := by
  obtain ⟨_, _, _, hbehind, -, -⟩ := toBytes_run.mp h
  obtain ⟨_, _, _, _, _, _, _, _, _, _, _, _, _, _, -, -, -, -, hmethods, -⟩ :=
    Encode.behindPool_run.mp hbehind
  obtain ⟨-, _, hparts, -⟩ := Encode.members_eq_ok.mp hmethods
  obtain ⟨_, _, _, _, _, hrun⟩ := emit_mapM_each hparts method hmethod
  obtain ⟨_, _, _, _, _, _, _, _, _, _, -, -, -, hattribute, -, -, -⟩ :=
    Encode.method_run.mp (emit_within_eq_ok.mp hrun)
  rw [Encode.codeAttribute_run, hcode] at hattribute
  obtain ⟨body, _, _, hbody, -, -⟩ := hattribute
  exact ⟨body, _, _, _, _, hbody⟩

/-- **Only handlers behind the end leave the bounds of a list.**  If no handler of exceptions begins
behind the last instruction, then writing a class never asks for an item beyond the end of a list, but
for what looking for common super classes does by itself.  No handler does if labels can be resolved, as
they can in all classes that are read, and in what is made of them.  A class is never written with frames
if a handler begins there, or if an instruction that can be reached jumps there.  Whatever an analysis
finds has a frame for each instruction, jumps go to instructions, and what is replaced stands within the
bytes of the code. -/
theorem toBytes_inRange (supers : SuperClasses σ) (cls : ClassFile) (computeFrames : Bool) :
    (¬ cls.HandlesBehind → FailsOnly (fun fault => fault.InRange ∨ supers.Raises fault)
      (cls.toBytes supers computeFrames)) ∧
    (cls.Resolves → ¬ cls.HandlesBehind) ∧
    ((computeFrames && cls.version.hasFrames) = true → ∀ state state' bytes,
      cls.toBytes supers computeFrames state = (.ok bytes, state') → ¬ cls.HandlesBehind ∧
        ∀ method ∈ cls.methods, ∀ code, method.code = some code → ¬ code.JumpsBehind) ∧
    ∀ (asked : SuperClasses σ) (method : Method) (code : Code) (maxLocals : UInt16)
      (state state' : σ) (found : Frame.Analysis),
      Frame.analyze asked cls.name method code maxLocals state = (.ok found, state') →
        Encode.FramesOf code found.frames ∧ ¬ code.JumpsBehind ∧
        ∀ (pool pool' : Pool.Builder) (placed : List (Option Label × CodeItem)) (layout : Layout),
          Encode.items code.instructions pool = .ok (placed, pool') →
          Layout.ofItems placed code.lastLabel = .ok layout →
          ∀ part ∈ (Encode.Context.mk code layout (some found.frames)).deadOffsets,
            part.1 < part.2 ∧ part.2 ≤ layout.chunks.flatten.length := by
  refine ⟨fun hnone => ?_, fun hresolves => ?_, fun hframes state state' bytes hwrite => ?_, ?_⟩
  · have hordinary (fault : Fault) (h : fault.Ordinary) : fault.InRange ∨ supers.Raises fault :=
      .inl h.2
    refine failsOnly_toBytes ?_ hordinary (fun m hm code hcode => ?_) computeFrames
    · exact fun a b error herror fault hfault => .inr ⟨a, b, error, herror, hfault⟩
    · refine ⟨hordinary, .inr fun fault hlabel => .inl fun length index heq => ?_, .inl ?_⟩
      · subst heq
        cases hlabel
      · exact fun hbehind => hnone ⟨m, hm, code, hcode, hbehind⟩
  · rintro ⟨m, hm, code, hcode, hbehind⟩
    exact (hresolves m hm code hcode).not_handlesBehind hbehind
  · have hends (m : Method) (hm : m ∈ cls.methods) (code : Code) (hcode : m.code = some code) :
        ¬ code.HandlesBehind ∧ ¬ code.JumpsBehind := by
      obtain ⟨_, _, _, _, _, hrun⟩ := code_of_toBytes hwrite hm hcode
      rw [hframes] at hrun
      exact Encode.ends_of_code hrun
    refine ⟨?_, fun m hm code hcode => (hends m hm code hcode).2⟩
    rintro ⟨m, hm, code, hcode, hbehind⟩
    exact (hends m hm code hcode).1 hbehind
  · intro asked method code maxLocals state state' found hfound
    have hframes := Encode.found_analyze hfound
    have hof := Encode.framesOf_analyze hfound
    exact ⟨hof, hof.not_jumpsBehind hframes, fun _ _ _ _ => hframes.deadOffsets_within⟩

section Example

open Encode

/-- A class with a method in which an instruction cannot be reached. -/
def skippingClass : ClassFile where
  version := ⟨52, 0⟩
  access := { isSuper := true }
  name := "a/A"
  superClass := some ClassName.javaObject
  interfaces := []
  methods := [skippingMethod]

/-- The labels of that class can be resolved, it is written with frames, and the instruction that is
replaced is the second of three bytes. -/
theorem toBytes_inRange_skippingClass :
    (skippingClass.Resolves ∧ ¬ skippingClass.HandlesBehind ∧
      FailsOnly (fun fault => fault.InRange ∨ (SuperClasses.objectOnly Unit).Raises fault)
        (skippingClass.toBytes (.objectOnly Unit) true)) ∧
    (∃ bytes, skippingClass.toBytes (.objectOnly Unit) true () = (.ok bytes, ()) ∧
      ¬ skippingCode.JumpsBehind) ∧
    (1, 2) ∈ skippingContext.deadOffsets ∧
      ∀ part ∈ skippingContext.deadOffsets, part.1 < part.2 ∧ part.2 ≤ 3 := by
  obtain ⟨hfails, hresolved, hwritten, hfound⟩ :=
    toBytes_inRange (.objectOnly Unit) skippingClass true
  have hresolves : skippingClass.Resolves := by
    intro method hmethod code hcode
    obtain rfl := List.mem_singleton.mp hmethod
    cases hcode
    exact ⟨by decide, by decide, by decide⟩
  have hruns : ((skippingClass.toBytes (.objectOnly Unit) true ()).1.toOption.any fun _ => true) =
      true := by
    cbv
  obtain ⟨bytes, hbytes, -⟩ := exists_of_any hruns
  have hwrite : skippingClass.toBytes (.objectOnly Unit) true () = (.ok bytes, ()) :=
    Prod.ext hbytes rfl
  obtain ⟨-, hjumps⟩ := hwritten rfl _ _ _ hwrite
  obtain ⟨-, -, hdead⟩ := hfound _ _ _ _ _ _ _ analyze_skippingCode.2
  refine ⟨⟨hresolves, hresolved hresolves, hfails (hresolved hresolves)⟩,
    ⟨bytes, hwrite, hjumps _ (List.mem_singleton.mpr rfl) _ rfl⟩, by decide, ?_⟩
  exact hdead {} {} _ skippingLayout rfl rfl

/-- A class whose method catches what it throws behind its only instruction. -/
def catchingClass : ClassFile where
  version := ⟨52, 0⟩
  access := { isSuper := true }
  name := "a/A"
  superClass := some ClassName.javaObject
  interfaces := []
  methods := [{
    access := { isStatic := true }
    name := "f"
    descriptor := "()V"
    code := some {
      instructions := [⟨some ⟨0⟩, .op .returnVoid⟩]
      exceptions := [⟨⟨0⟩, ⟨1⟩, ⟨1⟩, none⟩]
      lastLabel := some ⟨1⟩ } }]

/-- **A handler behind the end is not refused.**  Its frame is looked up beyond the end of the list of
frames, whether or not frames are to be written. -/
theorem outOfRange_catchingClass : catchingClass.HandlesBehind ∧
    (catchingClass.toBytes (.objectOnly Unit) true ()).1 =
      .error ⟨[.write (.inClass "a/A"), .write (.inMethod "f" "()V" "a/A"), .write .inCode,
        .write .frames, .outOfRange 1 1]⟩ ∧
    (catchingClass.toBytes (.objectOnly Unit) false ()).1 =
      .error ⟨[.write (.inClass "a/A"), .write (.inMethod "f" "()V" "a/A"), .write .inCode,
        .outOfRange 1 1]⟩ := by
  refine ⟨⟨_, List.mem_singleton.mpr rfl, _, rfl, _, List.mem_singleton.mpr rfl, rfl⟩, ?_, ?_⟩
  · cbv
  · cbv

end Example

end ClassFile

end Downlevel
