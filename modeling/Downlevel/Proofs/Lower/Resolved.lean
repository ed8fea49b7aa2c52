import Mathlib.Logic.Relation
import Downlevel.Proofs.Placed
import Downlevel.Proofs.RoundTrip.Class

/-!
# Labels from reading to writing

A class that was read has resolvable labels, every step that lowers it keeps them so, and a class
with resolvable labels is never refused for a label.  So whatever passes a class file was taken
through, writing it does not fail because of its labels.

The code for a switch takes a label for each argument of the call site, and that for comparing records
one for each component.  Labels are 16-bit numbers, so their numbers would start again if there were
more arguments or components than a class file can count (`ClassFile.Countable`).  No class file has as
many, and no step adds any.

* `ClassFile.Step`, `Converter.steps_of_convert` — the steps of lowering, of which a conversion is
  made up;
* `ClassFile.labels_resolvable` — labels can be resolved from reading to writing.
-/

namespace Downlevel

open Encode

/-- One step of lowering: a run of a pass, widening calls, or a new version. -/
inductive ClassFile.Step : ClassFile → ClassFile → Prop where
  | pass {pass : Pass} {cls : ClassFile} {lowered : Lowered} (run : pass.run cls = .ok lowered) :
      Step cls lowered.cls
  | widen {table : SymbolTable} {cls cls' : ClassFile} {before after : Session}
      (run : table.widenCalls cls before = (.ok cls', after)) : Step cls cls'
  | version (cls : ClassFile) (version : Version) : Step cls { cls with version := version }

/-- **A conversion is made up of steps.** -/
theorem Converter.steps_of_convert {converter : Converter} {cls cls' : ClassFile}
    {session session' : Session} (h : converter.convert cls session = (.ok (some cls'), session')) :
    Relation.ReflTransGen ClassFile.Step cls cls' := by
  refine convert_keeps (P := Relation.ReflTransGen ClassFile.Step cls) ?_ ?_ ?_ h .refl
  · intro pass _ between lowered hrun hsteps
    exact hsteps.tail (.pass hrun)
  · intro table between widened before after hrun hsteps
    exact hsteps.tail (.widen hrun)
  · intro between version hsteps
    exact hsteps.tail (.version between version)

namespace ClassFile

/-- The labels of a class that was read can be resolved, and a class file can count its parts. -/
theorem resolves_of_read {bytes : Bytes} {cls : ClassFile} (h : ofBytes bytes = .ok cls) :
    cls.Resolves ∧ cls.Countable := by
  have hkept := keptClass_of_read h
  refine ⟨fun method hmethod code hcode => ?_, fun method hmethod code hcode => ?_, ?_⟩
  · exact ((hkept.methods method hmethod).code code hcode).1.tidy.resolves
  · exact ((hkept.methods method hmethod).code code hcode).2
  · intro components hcomponents
    exact (hkept.recordComponents components hcomponents).1

/-- A step keeps the labels of a class resolvable. -/
theorem Step.resolves {cls cls' : ClassFile} (h : cls.Step cls')
    (hcls : cls.Resolves ∧ cls.Countable) : cls'.Resolves ∧ cls'.Countable := by
  cases h with
  | pass run => exact Pass.run_resolves run hcls.1 hcls.2
  | widen run => exact SymbolTable.widenCalls_resolves run hcls.1 hcls.2
  | version version => exact ⟨hcls.1, hcls.2.arguments, hcls.2.components⟩

/-- Steps keep the labels of a class resolvable. -/
theorem resolves_of_steps {cls cls' : ClassFile} (h : Relation.ReflTransGen Step cls cls')
    (hcls : cls.Resolves ∧ cls.Countable) : cls'.Resolves ∧ cls'.Countable := by
  induction h with
  | refl => exact hcls
  | tail _ hstep ih => exact hstep.resolves ih

/-- **Labels can always be resolved.**  They can be in every class that is read, every pass and every
widening of calls keeps them so, and with them every conversion.  A class that was read and taken
through any steps, or converted, is not refused for a label when it is written. -/
theorem labels_resolvable :
    (∀ (bytes : Bytes) (cls : ClassFile), ofBytes bytes = .ok cls → cls.Resolves ∧ cls.Countable) ∧
    (∀ cls cls' : ClassFile, cls.Step cls' → cls.Resolves ∧ cls.Countable →
      cls'.Resolves ∧ cls'.Countable) ∧
    (∀ (converter : Converter) (cls cls' : ClassFile) (session session' : Session),
      converter.convert cls session = (.ok (some cls'), session') → cls.Resolves ∧ cls.Countable →
        cls'.Resolves ∧ cls'.Countable) ∧
    ∀ (bytes : Bytes) (cls cls' : ClassFile), ofBytes bytes = .ok cls →
      (Relation.ReflTransGen Step cls cls' ∨
        ∃ (converter : Converter) (session session' : Session),
          converter.convert cls session = (.ok (some cls'), session')) →
      ∀ (σ : Type) (supers : SuperClasses σ), supers.Placed →
        ∀ (computeFrames : Bool) (s : σ) (error : Error) (s' : σ),
        cls'.toBytes supers computeFrames s = (.error error, s') →
            ∀ fault ∈ error.parts, ¬ fault.AboutLabel := by
  refine ⟨fun _ _ => resolves_of_read, fun _ _ => Step.resolves, ?_, ?_⟩
  · intro converter cls cls' session session' hconvert hcls
    exact resolves_of_steps (Converter.steps_of_convert hconvert) hcls
  · intro bytes cls cls' hread hlowered σ supers hsupers computeFrames s error s' hwrite
    have hsteps : Relation.ReflTransGen Step cls cls' :=
      hlowered.elim id fun ⟨_, _, _, hconvert⟩ => Converter.steps_of_convert hconvert
    have hcls' := resolves_of_steps hsteps (resolves_of_read hread)
    exact toBytes_placed hsupers hcls'.1 computeFrames error ⟨s, s', hwrite⟩

section Example

/-- A class of release 21 whose method handles its own exceptions. -/
def loopingClass : ClassFile where
  version := ⟨65, 0⟩
  access := { isSuper := true }
  name := "a/A"
  superClass := some ClassName.javaObject
  interfaces := []
  methods := [{
    access := { isStatic := true }
    name := "f"
    descriptor := "()V"
    code := some {
      instructions := [⟨some ⟨0⟩, .new MatchFailure.exception⟩, ⟨none, .op .athrow⟩]
      exceptions := [⟨⟨0⟩, ⟨1⟩, ⟨0⟩, none⟩]
      lastLabel := some ⟨1⟩ } }]

/-- The labels of that class can be resolved, and its parts can be counted. -/
theorem resolves_loopingClass : loopingClass.Resolves ∧ loopingClass.Countable := by
  refine ⟨?_, ?_, ?_⟩
  · intro method hmethod code hcode
    obtain rfl := List.mem_singleton.mp hmethod
    cases hcode
    exact ⟨by decide, by decide, by decide⟩
  · intro method hmethod code hcode
    obtain rfl := List.mem_singleton.mp hmethod
    cases hcode
    intro entry hentry
    rcases List.mem_cons.mp hentry with rfl | hlast
    · trivial
    · obtain rfl := List.mem_singleton.mp hlast
      trivial
  · rintro components ⟨⟩

/-- Labels of a class that was read can be resolved.  Those of a class stay resolvable in which another
exception takes the place of one, by the pass alone and by a conversion.  A class that was read and
marked is not refused for a label. -/
theorem labels_resolvable_branchingClass :
    branchingClass.Resolves ∧
      (∀ lowered, Pass.matchExceptionFixer.run loopingClass = .ok lowered → lowered.cls.Resolves) ∧
      (∃ converted session, Converter.convert ⟨⟨20, by decide, by decide⟩, none⟩ loopingClass {} =
        (.ok (some converted), session) ∧ converted.Resolves) ∧
      ∀ error, (Lower.markStrict branchingClass).cls.toBytes (.objectOnly Unit) true () =
        (.error error, ()) → ∀ fault ∈ error.parts, ¬ fault.AboutLabel := by
  obtain ⟨hread, hstep, hconvert, hwrite⟩ := labels_resolvable
  refine ⟨(hread _ _ ofBytes_branchingBytes).1, fun lowered hrun => ?_, ?_, fun error => ?_⟩
  · exact (hstep _ _ (.pass hrun) resolves_loopingClass).1
  · obtain ⟨converted, houtcome⟩ : ∃ converted, (Converter.convert ⟨⟨20, by decide, by decide⟩, none⟩
        loopingClass {}).1 = .ok (some converted) := ⟨_, rfl⟩
    have hrun : Converter.convert ⟨⟨20, by decide, by decide⟩, none⟩ loopingClass {} =
        (.ok (some converted), _) := Prod.ext houtcome rfl
    exact ⟨converted, _, hrun, (hconvert _ _ _ _ _ hrun resolves_loopingClass).1⟩
  · have hrun : Pass.alwaysStrict.run branchingClass = .ok (Lower.markStrict branchingClass) := rfl
    have hsteps : Relation.ReflTransGen Step branchingClass (Lower.markStrict branchingClass).cls :=
      .single (.pass hrun)
    exact hwrite _ _ _ ofBytes_branchingBytes (.inl hsteps) Unit _
      (SuperClasses.placed_objectOnly Unit) true () error ()

end Example

end ClassFile

end Downlevel
