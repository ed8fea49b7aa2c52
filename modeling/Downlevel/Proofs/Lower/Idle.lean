import Downlevel.Proofs.Lower.Constants
import Downlevel.Proofs.Lower.Record

/-!
# Passes that find nothing to do

For every pass there is a plain description of the classes on which it has nothing to do; such a
pass is **idle** on the class.  Everything about repeating passes follows from three facts:

* `Pass.run_of_idle` — on such a class a pass changes nothing and says so;
* `Pass.idle_of_run` — behind a pass the class is such a class;
* `Pass.idle_of_unchanged` — a pass that tells of no change was idle.

So the flag of a pass is exact, a second run never finds anything, and a pass that is run until it
settles needs at most two rounds.
-/

namespace Downlevel

open Instruction

/-- Nothing in a class carries attributes that nobody understands. -/
structure ClassFile.Stripped (cls : ClassFile) : Prop where
  ofClass : cls.attributes = []
  ofFields : ∀ field ∈ cls.fields, field.attributes = []
  ofMethods : ∀ method ∈ cls.methods, method.attributes = []
  ofCode : ∀ method ∈ cls.methods, ∀ code, method.code = some code → code.attributes = []
  ofComponents : ∀ components, cls.recordComponents = some components →
    ∀ component ∈ components, component.attributes = []

/-- A class on which a pass has nothing to do. -/
def Pass.Idle : Pass → ClassFile → Prop
  | moduleRemover, cls =>
      cls.moduleInfo = none ∧ cls.modulePackages = none ∧ cls.moduleMainClass = none
  | dynamicStringConcat, cls => cls.All (NotLinkedBy Concat.linkers)
  | explicitConstants, cls => cls.All Constants.Plain
  | nestHostToPackage, cls => cls.nestHost = none ∧ cls.nestMembers = none
  | recordToClass, cls => cls.superClass ≠ some ClassName.javaRecord
  | alwaysStrict, cls => ∀ method ∈ cls.methods, Lower.needsStrict method = false
  | unsealClasses, cls => cls.permittedSubclasses = none
  | dynamicSwitchPatterns, cls => cls.All (NotLinkedBy Switch.linkers)
  | matchExceptionFixer, cls => cls.All fun instruction => MatchFailure.isAbout instruction = false
  | removeAttributes, cls => cls.Stripped

/-- An outcome with the class as it was and without a change. -/
theorem Lowered.eq_unchanged {lowered : Lowered} {cls : ClassFile} (hcls : lowered.cls = cls)
    (hflag : lowered.changed = false) : lowered = Lowered.unchanged cls := by
  obtain ⟨_, _⟩ := lowered
  cases hcls
  cases hflag
  rfl

namespace Lower

/-- Leaving a list as it is, item by item. -/
theorem map_eq_self {α : Type} {f : α → α} {items : List α} (h : ∀ item ∈ items, f item = item) :
    items.map f = items := by
  rw [List.map_congr_left h, List.map_id']

/-- A class that says nothing about modules stays. -/
theorem removeModule_of_idle {cls : ClassFile} (h : Pass.moduleRemover.Idle cls) :
    removeModule cls = Lowered.unchanged cls := by
  obtain ⟨hinfo, hpackages, hmain⟩ := h
  cases cls
  simp_all [removeModule, Lowered.unchanged]

/-- A class without a list of permitted subclasses stays. -/
theorem unsealClass_of_idle {cls : ClassFile} (h : Pass.unsealClasses.Idle cls) :
    unsealClass cls = Lowered.unchanged cls := by
  have hnone : cls.permittedSubclasses = none := h
  cases cls
  simp_all [unsealClass, Lowered.unchanged]

/-- A class in which all methods are marked stays. -/
theorem markStrict_of_idle {cls : ClassFile} (h : Pass.alwaysStrict.Idle cls) :
    markStrict cls = Lowered.unchanged cls := by
  have hsame : (cls.methods.map fun method =>
      if needsStrict method then { method with access := { method.access with isStrict := true } }
      else method) = cls.methods :=
    map_eq_self fun method hmem => by simp [h method hmem]
  have hnone : cls.methods.any needsStrict = false := by
    simpa [List.any_eq_false, Pass.Idle] using h
  simp only [markStrict, hsame, hnone, Lowered.unchanged]

/-- A marked method needs no mark. -/
theorem needsStrict_marked (method : Method) :
    needsStrict (if needsStrict method then
      { method with access := { method.access with isStrict := true } } else method) = false := by
  split
  · simp [needsStrict]
  · next hnot => simpa using hnot

/-- Behind the pass all methods are marked. -/
theorem markStrict_idle (cls : ClassFile) : Pass.alwaysStrict.Idle (markStrict cls).cls := by
  intro method' hmem
  obtain ⟨method, _, rfl⟩ := List.mem_map.mp hmem
  exact needsStrict_marked method

/-- A method without attributes that nobody understands, in its code neither, stays. -/
theorem dropRaw_method {method : Method} (hnone : method.attributes = [])
    (hcode : ∀ code, method.code = some code → code.attributes = []) :
    { method with
      attributes := []
      code := method.code.map fun code => { code with attributes := [] } } = method := by
  have hsame : (method.code.map fun code => { code with attributes := [] }) = method.code := by
    cases hfound : method.code with
    | none => rfl
    | some code => rw [Option.map_some, ← hcode code hfound]
  rw [hsame, ← hnone]

/-- Nothing of a class changes if there are no attributes that nobody understands. -/
theorem changed_dropRawAttributes {cls : ClassFile} (h : Pass.removeAttributes.Idle cls) :
    (dropRawAttributes cls).changed = false := by
  simp only [dropRawAttributes, Bool.or_eq_false_iff, List.any_eq_false, hasRawAttributes]
  refine ⟨⟨⟨by simp [h.ofClass], fun field hmem => by simp [h.ofFields field hmem]⟩,
    fun method hmem => ?_⟩, fun component hmem => ?_⟩
  · cases hcode : method.code with
    | none => simp [h.ofMethods method hmem]
    | some code => simp [h.ofMethods method hmem, h.ofCode method hmem code hcode]
  · cases hsome : cls.recordComponents with
    | none => simp [hsome] at hmem
    | some components =>
        simp only [hsome, Option.getD_some] at hmem
        simp [h.ofComponents components hsome component hmem]

/-- A class without attributes that nobody understands stays. -/
theorem dropRawAttributes_of_idle {cls : ClassFile} (h : Pass.removeAttributes.Idle cls) :
    dropRawAttributes cls = Lowered.unchanged cls := by
  have hfields : (cls.fields.map fun field => { field with attributes := [] }) = cls.fields :=
    map_eq_self fun field hmem => by rw [← h.ofFields field hmem]
  have hmethods : (cls.methods.map fun method =>
      { method with
        attributes := []
        code := method.code.map fun code => { code with attributes := [] } }) = cls.methods :=
    map_eq_self fun method hmem => dropRaw_method (h.ofMethods method hmem) (h.ofCode method hmem)
  have hcomponents : (cls.recordComponents.map fun components =>
      components.map fun component => { component with attributes := [] }) =
        cls.recordComponents := by
    cases hsome : cls.recordComponents with
    | none => rfl
    | some components =>
        refine congrArg some (map_eq_self fun component hmem => ?_)
        rw [← h.ofComponents components hsome component hmem]
  have hclass := h.ofClass
  refine Lowered.eq_unchanged ?_ (changed_dropRawAttributes h)
  simp only [dropRawAttributes, hfields, hmethods, hcomponents]
  cases cls
  cases hclass
  rfl

/-- Behind the pass there are no attributes that nobody understands. -/
theorem dropRawAttributes_idle (cls : ClassFile) :
    Pass.removeAttributes.Idle (dropRawAttributes cls).cls where
  ofClass := rfl
  ofFields field' hmem := by
    obtain ⟨field, _, rfl⟩ := List.mem_map.mp hmem
    rfl
  ofMethods method' hmem := by
    obtain ⟨method, _, rfl⟩ := List.mem_map.mp hmem
    rfl
  ofCode method' hmem code' hcode' := by
    obtain ⟨method, _, rfl⟩ := List.mem_map.mp hmem
    obtain ⟨code, _, rfl⟩ := Option.map_eq_some_iff.mp hcode'
    rfl
  ofComponents components' hsome component' hmem := by
    obtain ⟨components, _, rfl⟩ := Option.map_eq_some_iff.mp hsome
    obtain ⟨component, _, rfl⟩ := List.mem_map.mp hmem
    rfl

/-- If no change is told, there were no attributes that nobody understands. -/
theorem stripped_of_unchanged {cls : ClassFile} (h : (dropRawAttributes cls).changed = false) :
    cls.Stripped := by
  simp only [dropRawAttributes, Bool.or_eq_false_iff, List.any_eq_false, hasRawAttributes,
    Bool.not_eq_true, Bool.not_eq_false', List.isEmpty_iff] at h
  obtain ⟨⟨⟨hclass, hfields⟩, hmethods⟩, hcomponents⟩ := h
  refine ⟨hclass, hfields, fun method hmem => (hmethods method hmem).1,
    fun method hmem code hcode => ?_, fun components hsome component hmem => ?_⟩
  · have hflag := (hmethods method hmem).2
    simpa [hcode] using hflag
  · exact hcomponents component (by simpa [hsome] using hmem)

end Lower

namespace Pass

/-- **An idle pass changes nothing**, and says so. -/
theorem run_of_idle {pass : Pass} {cls : ClassFile} (h : pass.Idle cls) :
    pass.run cls = .ok (Lowered.unchanged cls) := by
  cases pass with
  | moduleRemover => exact congrArg _ (Lower.removeModule_of_idle h)
  | dynamicStringConcat =>
      exact ClassFile.replaceCallSites_of_leaves _ (h.mono fun _ => Concat.leaves_iff.mpr)
  | explicitConstants => exact Constants.dynamicConstants_of_plain h
  | nestHostToPackage =>
      obtain ⟨hhost, hmembers⟩ := h
      simp [run, Lower.openNest, hhost, hmembers]
  | recordToClass =>
      have hnot : cls.isRecord = false := by simpa [ClassFile.isRecord, Idle] using h
      simp [run, Lower.recordToClass, hnot]
  | alwaysStrict => exact congrArg _ (Lower.markStrict_of_idle h)
  | unsealClasses => exact congrArg _ (Lower.unsealClass_of_idle h)
  | dynamicSwitchPatterns =>
      exact ClassFile.replaceCallSites_of_leaves _ (h.mono fun _ => Switch.leaves_iff.mpr)
  | matchExceptionFixer =>
      have hsame : cls.methods.map MatchFailure.replaceIn = cls.methods :=
        Lower.map_eq_self fun method hmem => MatchFailure.replaceIn_of_other (h method hmem)
      have hflag := (MatchFailure.matchFailure_changed cls).mpr h
      refine congrArg _ (Lowered.eq_unchanged ?_ hflag)
      simp only [Lower.matchFailure, hsame]
  | removeAttributes => exact congrArg _ (Lower.dropRawAttributes_of_idle h)

/-- **Behind a pass there is nothing left for it to do.** -/
theorem idle_of_run {pass : Pass} {cls : ClassFile} {lowered : Lowered}
    (h : pass.run cls = .ok lowered) : pass.Idle lowered.cls := by
  cases pass with
  | moduleRemover =>
      cases h
      exact ⟨rfl, rfl, rfl⟩
  | dynamicStringConcat =>
      refine ClassFile.replaceCallSites_all h (fun _ _ => trivial)
        fun method _ code _ entry _ => ⟨Concat.leaves_iff.mp, fun site body _ hgenerate => ?_⟩
      exact Concat.all_generate (fun _ hstraight => .of_direct hstraight.direct) hgenerate
        fun _ _ => trivial
  | explicitConstants =>
      exact Constants.dynamicConstants_all h (fun _ => Constants.Plain.of_direct)
        (Constants.plain_bounced cls) fun _ _ _ _ _ _ hplain => hplain
  | nestHostToPackage =>
      cases h
      unfold Lower.openNest
      split
      · next hnone =>
          simp only [Bool.and_eq_true, Option.isNone_iff_eq_none] at hnone
          exact hnone
      · exact ⟨rfl, rfl⟩
  | recordToClass => exact Record.superClass_ne_record h
  | alwaysStrict =>
      cases h
      exact Lower.markStrict_idle cls
  | unsealClasses =>
      cases h
      rfl
  | dynamicSwitchPatterns =>
      refine ClassFile.replaceCallSites_all h (fun _ _ => trivial)
        fun method _ code _ entry _ => ⟨Switch.leaves_iff.mp, fun site body _ hgenerate => ?_⟩
      exact (Switch.direct_generate hgenerate).mono fun _ => NotLinkedBy.of_direct
  | matchExceptionFixer =>
      cases h
      exact MatchFailure.matchFailure_all (fun _ _ hother => hother)
        fun _ _ _ _ _ _ hother => hother
  | removeAttributes =>
      cases h
      exact Lower.dropRawAttributes_idle cls

/-- **A pass that tells of no change was idle.** -/
theorem idle_of_unchanged {pass : Pass} {cls : ClassFile} {lowered : Lowered}
    (h : pass.run cls = .ok lowered) (hunchanged : lowered.changed = false) : pass.Idle cls := by
  cases pass with
  | moduleRemover =>
      cases h
      simpa [Lower.removeModule, Idle, and_assoc] using hunchanged
  | dynamicStringConcat =>
      exact (ClassFile.leaves_of_unchanged h hunchanged).mono fun _ => Concat.leaves_iff.mp
  | explicitConstants => exact Constants.plain_of_unchanged h hunchanged
  | nestHostToPackage =>
      cases h
      unfold Lower.openNest at hunchanged
      split at hunchanged
      · next hnone =>
          simp only [Bool.and_eq_true, Option.isNone_iff_eq_none] at hnone
          exact hnone
      · cases hunchanged
  | recordToClass =>
      simp only [run, Lower.recordToClass] at h
      split at h
      · simp only [bind_eq_ok, pure_eq_ok] at h
        obtain ⟨methods, _, rfl⟩ := h
        cases hunchanged
      · next hnot => simpa [ClassFile.isRecord, Idle] using hnot
  | alwaysStrict =>
      cases h
      simpa [Lower.markStrict, Idle, List.any_eq_false] using hunchanged
  | unsealClasses =>
      cases h
      simpa [Lower.unsealClass, Idle] using hunchanged
  | dynamicSwitchPatterns =>
      exact (ClassFile.leaves_of_unchanged h hunchanged).mono fun _ => Switch.leaves_iff.mp
  | matchExceptionFixer =>
      cases h
      exact (MatchFailure.matchFailure_changed cls).mp hunchanged
  | removeAttributes =>
      cases h
      exact Lower.stripped_of_unchanged hunchanged

/-- A pass that succeeds leaves a class on which it succeeds again and changes nothing. -/
theorem apply_again {pass : Pass} {cls : ClassFile} {lowered : Lowered}
    (h : pass.apply cls = .ok lowered) :
    pass.apply lowered.cls = .ok (Lowered.unchanged lowered.cls) := by
  simp only [apply, within_eq_ok] at h ⊢
  exact run_of_idle (idle_of_run h)

/-- A pass that tells of no change leaves the class as it is. -/
theorem eq_of_unchanged {pass : Pass} {cls : ClassFile} {lowered : Lowered}
    (h : pass.apply cls = .ok lowered) (hunchanged : lowered.changed = false) :
    lowered.cls = cls := by
  simp only [apply, within_eq_ok] at h
  have hidle := run_of_idle (idle_of_unchanged h hunchanged)
  rw [h] at hidle
  cases hidle
  rfl

/-- A pass that tells of a change leaves another class. -/
theorem ne_of_changed {pass : Pass} {cls : ClassFile} {lowered : Lowered}
    (h : pass.apply cls = .ok lowered) (hchanged : lowered.changed = true) :
    lowered.cls ≠ cls := by
  intro hsame
  simp only [apply, within_eq_ok] at h
  -- A class that comes out as it went in has nothing left to do, so no change would be told.
  have hidle := run_of_idle (hsame ▸ idle_of_run h : pass.Idle cls)
  rw [h] at hidle
  cases hidle
  cases hchanged

/-- A pass whose first round succeeds settles with the class of that round, as soon as two rounds
are allowed. -/
theorem settle_of_apply {pass : Pass} {cls : ClassFile} {lowered : Lowered}
    (h : pass.apply cls = .ok lowered) (rounds : Nat) :
    pass.settle (rounds + 2) cls = .ok lowered.cls := by
  have hagain := apply_again h
  cases hchanged : lowered.changed with
  | false => simp [settle, bind_eq_ok, h, hchanged]
  | true => simp [settle, bind_eq_ok, h, hchanged, hagain, Lowered.unchanged]

/-- **The flag of a pass is exact, and passes settle.**  If a pass succeeds, it tells of a change
exactly if it made one; run on what it left, it changes nothing; and a pass that runs until it
settles does so within two rounds, so it never runs out of them. -/
theorem changed_exact_and_settles (pass : Pass) (cls : ClassFile) (lowered : Lowered)
    (h : pass.apply cls = .ok lowered) :
    (lowered.changed = false → lowered.cls = cls) ∧
      (lowered.changed = true → lowered.cls ≠ cls) ∧
      pass.apply lowered.cls = .ok (Lowered.unchanged lowered.cls) ∧
      pass.settle 2 cls = .ok lowered.cls ∧
      (Stage.fixedPoint pass).run cls = .ok lowered.cls :=
  ⟨eq_of_unchanged h, ne_of_changed h, apply_again h, settle_of_apply h 0, settle_of_apply h 14⟩

/-- A class with one method, which returns a constant. -/
def constantReturning (load : Instruction) : ClassFile where
  version := ⟨55, 0⟩
  access := {}
  name := "a/A"
  superClass := some ClassName.javaObject
  interfaces := []
  methods := [Method.ofCode { isStatic := true } "f" "()Ljava/lang/Object;"
    { instructions := [⟨none, load⟩, ⟨none, .op .areturn⟩] }]

/-- A dynamic constant that is always null. -/
def nullConstant : Loadable :=
  .dynamic "x" "Ljava/lang/Object;" (.method (.static false) Constants.nullBootstrap) []

/-- Loading a dynamic constant that is null settles with loading null. -/
theorem changed_exact_and_settles_nullConstant :
    explicitConstants.apply (constantReturning (.ldc nullConstant)) =
        .ok ⟨constantReturning (.op .aconstNull), true⟩ ∧
      explicitConstants.settle 2 (constantReturning (.ldc nullConstant)) =
        .ok (constantReturning (.op .aconstNull)) := by
  have happly : explicitConstants.apply (constantReturning (.ldc nullConstant)) =
      .ok ⟨constantReturning (.op .aconstNull), true⟩ := by decide +kernel
  exact ⟨happly, (changed_exact_and_settles _ _ _ happly).2.2.2.1⟩

end Pass

end Downlevel
