import Downlevel.Proofs.Lower.Conversion
import Downlevel.Proofs.Lower.Idle

/-!
# What is removed stays removed

Going down several releases runs many passes, and calls are widened behind them.  Each construct is
removed by one pass; this file shows that nothing that runs later brings it back.

There are two kinds of constructs.  What a class says about itself, such as its nest or the modules
it belongs to, only gets less: `ClassFile.Fades` compares a class with what becomes of it.  What the
instructions of a class do is described by **steady** properties: those that hold of everything a
pass can write, given that they held before.

* `Pass.run_fades`, `Pass.run_steady` — one pass keeps both kinds;
* `Pass.Lasting.idle_of_descends` — so where one of the passes that take something out has nothing
  to do, it has nothing to do on anything that comes of the class;
* `Converter.idle_of_runStages` — and behind a list of stages none of their passes has anything
  left;
* `Converter.convert_removed` — a converted class has none of the constructs between the two
  releases.
-/

namespace Downlevel

open Instruction

/-! ## What a class says about itself -/

/-- What a class says about itself only gets less from `cls` to `cls'`. -/
structure ClassFile.Fades (cls cls' : ClassFile) : Prop where
  moduleInfo : cls.moduleInfo = none → cls'.moduleInfo = none
  modulePackages : cls.modulePackages = none → cls'.modulePackages = none
  moduleMainClass : cls.moduleMainClass = none → cls'.moduleMainClass = none
  nestHost : cls.nestHost = none → cls'.nestHost = none
  nestMembers : cls.nestMembers = none → cls'.nestMembers = none
  permittedSubclasses : cls.permittedSubclasses = none → cls'.permittedSubclasses = none
  recordComponents : cls.recordComponents = none → cls'.recordComponents = none
  superClass : cls.superClass ≠ some ClassName.javaRecord →
    cls'.superClass ≠ some ClassName.javaRecord
  /-- A record stays one until its components are gone. -/
  record : cls.superClass = some ClassName.javaRecord →
    cls'.superClass = some ClassName.javaRecord ∨ cls'.recordComponents = none

namespace ClassFile.Fades

/-- A class with other members says as much about itself. -/
theorem of_members (cls : ClassFile) (fields : List Field) (methods : List Method) :
    cls.Fades { cls with fields := fields, methods := methods } :=
  ⟨id, id, id, id, id, id, id, id, .inl⟩

/-- A class says as much as itself. -/
theorem refl (cls : ClassFile) : cls.Fades cls :=
  of_members cls cls.fields cls.methods

/-- What gets less and then less again gets less. -/
theorem trans {a b c : ClassFile} (h : a.Fades b) (h' : b.Fades c) : a.Fades c where
  moduleInfo := h'.moduleInfo ∘ h.moduleInfo
  modulePackages := h'.modulePackages ∘ h.modulePackages
  moduleMainClass := h'.moduleMainClass ∘ h.moduleMainClass
  nestHost := h'.nestHost ∘ h.nestHost
  nestMembers := h'.nestMembers ∘ h.nestMembers
  permittedSubclasses := h'.permittedSubclasses ∘ h.permittedSubclasses
  recordComponents := h'.recordComponents ∘ h.recordComponents
  superClass := h'.superClass ∘ h.superClass
  record hrecord := by
    rcases h.record hrecord with hstill | hgone
    · exact h'.record hstill
    · exact .inr (h'.recordComponents hgone)

end ClassFile.Fades

/-- **A pass never adds** to what a class says about itself. -/
theorem Pass.run_fades {pass : Pass} {cls : ClassFile} {lowered : Lowered}
    (h : pass.run cls = .ok lowered) : cls.Fades lowered.cls := by
  cases pass with
  | moduleRemover =>
      cases h
      exact ⟨fun _ => rfl, fun _ => rfl, fun _ => rfl, id, id, id, id, id, .inl⟩
  | dynamicStringConcat =>
      obtain ⟨methods, hcls⟩ := ClassFile.replaceCallSites_frame h
      exact hcls ▸ .of_members cls cls.fields methods
  | explicitConstants =>
      obtain ⟨fields, methods, hcls⟩ := Constants.dynamicConstants_frame h
      exact hcls ▸ .of_members cls fields methods
  | nestHostToPackage =>
      cases h
      unfold Lower.openNest
      split
      · exact .refl cls
      · exact ⟨id, id, id, fun _ => rfl, fun _ => rfl, id, id, id, .inl⟩
  | recordToClass =>
      have hsuper := Record.superClass_ne_record h
      simp only [run, Lower.recordToClass] at h
      split at h
      · simp only [bind_eq_ok, pure_eq_ok] at h
        obtain ⟨methods, _, rfl⟩ := h
        exact ⟨id, id, id, id, id, id, fun _ => rfl, fun _ => hsuper, fun _ => .inr rfl⟩
      · simp only [pure_eq_ok] at h
        subst h
        exact .refl cls
  | alwaysStrict =>
      cases h
      exact .of_members cls cls.fields _
  | unsealClasses =>
      cases h
      exact ⟨id, id, id, id, id, fun _ => rfl, id, id, .inl⟩
  | dynamicSwitchPatterns =>
      obtain ⟨methods, hcls⟩ := ClassFile.replaceCallSites_frame h
      exact hcls ▸ .of_members cls cls.fields methods
  | matchExceptionFixer =>
      cases h
      exact .of_members cls cls.fields _
  | removeAttributes =>
      cases h
      have hnone : cls.recordComponents = none →
          (Lower.dropRawAttributes cls).cls.recordComponents = none := by
        intro hnone
        simp [Lower.dropRawAttributes, hnone]
      exact ⟨id, id, id, id, id, id, hnone, id, .inl⟩

/-! ## What instructions do -/

/-- A property of instructions that lowering cannot break: it holds of all direct instructions, and
of what is made of the dynamic ones. -/
structure Instruction.Steady (P : Instruction → Prop) : Prop where
  direct : ∀ instruction, instruction.Direct → P instruction
  /-- A site may be bound to a new method that loads the arguments itself. -/
  bounced : ∀ cls site number, P (Constants.bounced cls site number)
  /-- The arguments of a site may be loaded by code that takes its place. -/
  argument : ∀ site, P (.invokedynamic site) → ∀ argument ∈ site.arguments, P (.ldc argument)
  /-- The bootstrap method of a site may be looked up in another class. -/
  widened : ∀ site found, P (.invokedynamic site) →
    P (.invokedynamic { site with bootstrap := SymbolTable.handleOf found })

/-- Using no dynamic constants is steady. -/
theorem Constants.steady_plain : Steady Constants.Plain where
  direct _ := Constants.Plain.of_direct
  bounced := Constants.plain_bounced
  argument _ hplain argument hmem := hplain argument hmem
  widened _ _ hplain := hplain

/-- A handle on a method to be called on an object is on no static method. -/
theorem SymbolTable.isStatic_handleOf (found : MethodRef × Bool) (target : MethodRef) :
    (SymbolTable.handleOf found).isStatic target = false := by
  obtain ⟨method, _ | _⟩ := found <;> rfl

/-- Not being linked by given methods is steady, unless one of them could be the method that a site
is bound to anew. -/
theorem Instruction.steady_notLinkedBy {bootstraps : List MethodRef}
    (h : ∀ bootstrap ∈ bootstraps, bootstrap.descriptor = Constants.bouncerDescriptor →
      bootstrap.name.toList.head? ≠ some 'i') :
    Steady (NotLinkedBy bootstraps) where
  direct _ := NotLinkedBy.of_direct
  bounced cls site number bootstrap hmem := by
    simp only [Handle.isStatic, decide_eq_false_iff_not]
    intro hsame
    refine h bootstrap hmem ?_ ?_
    · rw [← hsame]
    · simp [← hsame]
  argument _ _ _ _ := trivial
  widened _ found _ bootstrap _ := SymbolTable.isStatic_handleOf found bootstrap

/-- Not being linked by the bootstrap methods of switches is steady. -/
theorem Switch.steady : Steady (NotLinkedBy Switch.linkers) :=
  steady_notLinkedBy (by decide)

/-- Not being linked by the bootstrap methods of string concatenation is steady. -/
theorem Concat.steady : Steady (NotLinkedBy Concat.linkers) :=
  steady_notLinkedBy (by decide +kernel)

section Steady

variable {P : Instruction → Prop} {cls : ClassFile}

/-- Methods with the same instructions as before are as they were. -/
theorem ClassFile.all_of_same_code {cls' : ClassFile} {f : Method → Method}
    (hmethods : cls'.methods = cls.methods.map f)
    (hcode : ∀ method code', (f method).code = some code' →
      ∃ code, method.code = some code ∧ code'.instructions = code.instructions)
    (h : cls.All P) : cls'.All P := by
  intro method' hmem code' hcode'
  rw [hmethods] at hmem
  obtain ⟨method, hmethod, rfl⟩ := List.mem_map.mp hmem
  obtain ⟨code, hsome, hsame⟩ := hcode method code' hcode'
  intro entry hentry
  rw [hsame] at hentry
  exact h method hmethod code hsome entry hentry

/-- **A pass keeps steady properties.** -/
theorem Pass.run_steady (hP : Steady P) {pass : Pass} {lowered : Lowered}
    (h : pass.run cls = .ok lowered) (hold : cls.All P) : lowered.cls.All P := by
  cases pass with
  | moduleRemover =>
      cases h
      exact hold
  | dynamicStringConcat =>
      refine ClassFile.replaceCallSites_all h (fun _ _ => hP.direct _ trivial)
        fun method hmethod code hcode entry hentry =>
          ⟨fun _ => hold method hmethod code hcode entry hentry,
            fun site body hsite hgenerate => ?_⟩
      have hhere := hold method hmethod code hcode entry hentry
      rw [hsite] at hhere
      exact Concat.all_generate (fun _ hstraight => hP.direct _ hstraight.direct) hgenerate (hP.argument site hhere)
  | explicitConstants =>
      exact Constants.dynamicConstants_all h hP.direct (hP.bounced cls)
        fun method hmethod code hcode entry hentry _ => hold method hmethod code hcode entry hentry
  | nestHostToPackage =>
      cases h
      unfold Lower.openNest
      split
      · exact hold
      · exact ClassFile.all_of_same_code rfl (fun _ code hcode => ⟨code, hcode, rfl⟩) hold
  | recordToClass => exact Record.recordToClass_all hP.direct h hold
  | alwaysStrict =>
      cases h
      refine ClassFile.all_of_same_code rfl (fun method code hcode => ⟨code, ?_, rfl⟩) hold
      split at hcode <;> exact hcode
  | unsealClasses =>
      cases h
      exact hold
  | dynamicSwitchPatterns =>
      refine ClassFile.replaceCallSites_all h (fun _ _ => hP.direct _ trivial)
        fun method hmethod code hcode entry hentry =>
          ⟨fun _ => hold method hmethod code hcode entry hentry, fun site body _ hgenerate => ?_⟩
      exact (Switch.direct_generate hgenerate).mono hP.direct
  | matchExceptionFixer =>
      cases h
      exact MatchFailure.matchFailure_all (fun instruction hdirect _ => hP.direct _ hdirect)
        fun method hmethod code hcode entry hentry _ => hold method hmethod code hcode entry hentry
  | removeAttributes =>
      cases h
      refine ClassFile.all_of_same_code rfl (fun method code' hcode' => ?_) hold
      obtain ⟨code, hcode, rfl⟩ := Option.map_eq_some_iff.mp hcode'
      exact ⟨code, hcode, rfl⟩

end Steady

/-! ## Calls that are widened -/

namespace SymbolTable

variable {table : SymbolTable} {session session' : Session}

/-- A widened instruction is as a steady property says. -/
theorem widenInstruction_steady {P : Instruction → Prop} (hP : Steady P) {owner : ClassName}
    {context : String} {instruction instruction' : Instruction}
    (h : table.widenInstruction owner context instruction session = (.ok instruction', session'))
    (hold : P instruction) : P instruction' := by
  rcases widenInstruction_cases h with rfl | ⟨found, rfl⟩ | ⟨site, found, rfl, rfl⟩
  · exact hold
  · obtain ⟨target, _ | _⟩ := found <;> exact hP.direct _ trivial
  · exact hP.widened site found hold

/-- A method with widened calls is as a steady property says. -/
theorem widenMethod_steady {P : Instruction → Prop} (hP : Steady P) {owner : ClassName}
    {method method' : Method}
    (h : table.widenMethod owner method session = (.ok method', session'))
    (hold : method.All P) : method'.All P := by
  rcases widenMethod_run h with ⟨_, rfl⟩ | ⟨code, instructions, hcode, hwidened, rfl⟩
  · exact hold
  · intro code' hcode' entry' hmem
    cases hcode'
    obtain ⟨entry, hentry, -, t, t', hstep⟩ := exists_left_of_forall₂ hwidened hmem
    exact widenInstruction_steady hP hstep (hold code hcode entry hentry)

end SymbolTable

/-! ## Everything that runs on a class -/

/-- A class that comes of another one by lowering: it says no more about itself, and steady
properties still hold of it. -/
structure ClassFile.Descends (cls cls' : ClassFile) : Prop extends cls.Fades cls' where
  steady : ∀ P, Steady P → cls.All P → cls'.All P

namespace ClassFile.Descends

/-- A class comes of itself. -/
theorem refl (cls : ClassFile) : cls.Descends cls :=
  ⟨.refl cls, fun _ _ hold => hold⟩

/-- What comes of what comes of a class comes of the class. -/
theorem trans {a b c : ClassFile} (h : a.Descends b) (h' : b.Descends c) : a.Descends c :=
  ⟨h.toFades.trans h'.toFades, fun P hP hold => h'.steady P hP (h.steady P hP hold)⟩

end ClassFile.Descends

namespace Pass

variable {pass : Pass} {cls cls' : ClassFile}

/-- What a pass makes of a class comes of it. -/
theorem apply_descends {lowered : Lowered} (h : pass.apply cls = .ok lowered) :
    cls.Descends lowered.cls := by
  simp only [apply, within_eq_ok] at h
  exact ⟨run_fades h, fun P hP hold => run_steady hP h hold⟩

/-- A pass that takes out something that nothing else puts in. -/
def Lasting : Pass → Prop
  | moduleRemover | dynamicStringConcat | explicitConstants | nestHostToPackage => True
  | recordToClass | unsealClasses | dynamicSwitchPatterns => True
  | alwaysStrict | matchExceptionFixer | removeAttributes => False

/-- **What such a pass took out stays out** of everything that comes of the class. -/
theorem Lasting.idle_of_descends (h : pass.Lasting) (hdescends : cls.Descends cls')
    (hidle : pass.Idle cls) : pass.Idle cls' := by
  cases pass with
  | moduleRemover =>
      obtain ⟨hinfo, hpackages, hmain⟩ := hidle
      exact ⟨hdescends.moduleInfo hinfo, hdescends.modulePackages hpackages,
        hdescends.moduleMainClass hmain⟩
  | dynamicStringConcat => exact hdescends.steady _ Concat.steady hidle
  | explicitConstants => exact hdescends.steady _ Constants.steady_plain hidle
  | nestHostToPackage =>
      obtain ⟨hhost, hmembers⟩ := hidle
      exact ⟨hdescends.nestHost hhost, hdescends.nestMembers hmembers⟩
  | recordToClass => exact hdescends.superClass hidle
  | unsealClasses => exact hdescends.permittedSubclasses hidle
  | dynamicSwitchPatterns => exact hdescends.steady _ Switch.steady hidle
  | alwaysStrict => cases h
  | matchExceptionFixer => cases h
  | removeAttributes => cases h

/-- A pass that settles leaves a class that comes of the first one and has nothing left for it. -/
theorem settle_descends {rounds : Nat} (h : pass.settle rounds cls = .ok cls') :
    cls.Descends cls' ∧ pass.Idle cls' := by
  induction rounds generalizing cls with
  | zero => simp [settle] at h
  | succ rounds ih =>
      simp only [settle, bind_eq_ok] at h
      obtain ⟨lowered, happly, hrest⟩ := h
      have hfirst := apply_descends happly
      split at hrest
      · obtain ⟨hthen, hidle⟩ := ih hrest
        exact ⟨hfirst.trans hthen, hidle⟩
      · cases hrest
        simp only [apply, within_eq_ok] at happly
        exact ⟨hfirst, idle_of_run happly⟩

end Pass

/-- A stage leaves a class that comes of the first one and has nothing left for its pass. -/
theorem Stage.run_descends {stage : Stage} {cls cls' : ClassFile} (h : stage.run cls = .ok cls') :
    cls.Descends cls' ∧ stage.pass.Idle cls' := by
  cases stage with
  | once pass =>
      simp only [run, bind_eq_ok, pure_eq_ok] at h
      obtain ⟨lowered, happly, rfl⟩ := h
      have hdescends := Pass.apply_descends happly
      simp only [Pass.apply, within_eq_ok] at happly
      exact ⟨hdescends, Pass.idle_of_run happly⟩
  | fixedPoint pass => exact Pass.settle_descends h

namespace Converter

/-- What stages make of a class comes of it. -/
theorem runStages_descends {stages : List Stage} {cls cls' : ClassFile}
    (h : runStages stages cls = .ok cls') : cls.Descends cls' := by
  induction stages generalizing cls with
  | nil =>
      cases h
      exact .refl _
  | cons stage rest ih =>
      simp only [runStages, bind_eq_ok] at h
      obtain ⟨between, hrun, hrest⟩ := h
      exact (Stage.run_descends hrun).1.trans (ih hrest)

/-- **Behind a list of stages** nothing is left for those of their passes that take something out
for good. -/
theorem idle_of_runStages {stages : List Stage} {cls cls' : ClassFile}
    (h : runStages stages cls = .ok cls') {stage : Stage} (hmem : stage ∈ stages)
    (hlasting : stage.pass.Lasting) : stage.pass.Idle cls' := by
  induction stages generalizing cls with
  | nil => cases hmem
  | cons first rest ih =>
      simp only [runStages, bind_eq_ok] at h
      obtain ⟨between, hrun, hrest⟩ := h
      rcases List.mem_cons.mp hmem with rfl | hlater
      · exact hlasting.idle_of_descends (runStages_descends hrest) (Stage.run_descends hrun).2
      · exact ih hrest hlater

end Converter

/-- The stages of every release on the way down are run. -/
theorem Release.mem_stagesAbove {number steps : Nat} {stage : Stage} {release : Nat}
    (habove : number < release) (hbelow : release ≤ number + steps)
    (hmem : stage ∈ stagesOf release) : stage ∈ stagesAbove number steps := by
  induction steps with
  | zero => omega
  | succ steps ih =>
      rw [stagesAbove, List.mem_append]
      rcases Nat.lt_or_ge (number + steps) release with hlast | hearlier
      · have hsame : release = number + steps + 1 := by omega
        exact .inl (hsame ▸ hmem)
      · exact .inr (ih hearlier)

/-- Every stage on the way down is one of a release on the way. -/
theorem Release.of_mem_stagesAbove {number steps : Nat} {stage : Stage}
    (h : stage ∈ stagesAbove number steps) :
    ∃ release, number < release ∧ release ≤ number + steps ∧ stage ∈ stagesOf release := by
  induction steps with
  | zero => cases h
  | succ steps ih =>
      rw [stagesAbove, List.mem_append] at h
      rcases h with hlast | hearlier
      · exact ⟨number + steps + 1, by omega, by omega, hlast⟩
      · obtain ⟨release, habove, hbelow, hmem⟩ := ih hearlier
        exact ⟨release, habove, by omega, hmem⟩

/-- A class file that is newer than those of a release belongs to a newer release. -/
theorem Release.lt_of_ofVersion {release source : Release} {version : Version}
    (h : ofVersion version = .ok source) (hnewer : ¬ version.major ≤ release.version.major) :
    release.number < source.number := by
  simp only [ofVersion, orFail_eq_ok] at h
  split at h
  · next hlowest =>
      unfold ofNumber? at h
      split at h
      · cases h
        have hbound := release.le_highest
        have hmajor : release.version.major.toNat = release.number + 44 := by
          simp only [Release.version, Nat.toUInt16, UInt16.toNat_ofNat']
          omega
        rw [UInt16.le_iff_toNat_le, hmajor] at hnewer
        show release.number < version.major.toNat - 44
        omega
      · cases h
  · cases h

namespace Converter

variable {converter : Converter} {cls cls' : ClassFile} {session session' : Session}

/-- What widening makes of a class comes of it. -/
theorem widen_descends (h : converter.widen cls session = (.ok cls', session')) :
    cls.Descends cls' := by
  unfold widen at h
  cases hsymbols : converter.symbols with
  | none =>
      simp only [hsymbols, task_pure_eq_ok] at h
      exact h.1 ▸ .refl cls
  | some table =>
      simp only [hsymbols] at h
      obtain ⟨methods, hmap, rfl⟩ := SymbolTable.widenCalls_run h
      refine ⟨.of_members cls cls.fields methods, fun P hP hold method' hmem => ?_⟩
      obtain ⟨method, hmethod, _, _, hwiden⟩ := exists_left_of_forall₂ (task_mapM_forall₂ hmap) hmem
      exact SymbolTable.widenMethod_steady hP hwiden (hold method hmethod)

/-- The parts of a conversion, with the two releases that it goes between. -/
theorem convert_run (h : converter.convert cls session = (.ok (some cls'), session')) :
    ∃ source between widened lowered,
      Release.ofVersion cls.version = .ok source ∧
      converter.target.number < source.number ∧
      runStages (Release.stagesAbove converter.target.number
        (source.number - converter.target.number)) cls = .ok between ∧
      between.Descends widened ∧
      Pass.removeAttributes.apply widened = .ok lowered ∧
      cls' = { lowered.cls with version := converter.target.version } := by
  obtain ⟨stages, between, _, _, widened, lowered, hstages, hrun, hwiden, happly, hcls⟩ :=
    convert_steps h
  unfold Release.stagesFrom at hstages
  split at hstages
  · cases hstages
  · next hnewer =>
      simp only [bind_eq_ok, pure_eq_ok] at hstages
      obtain ⟨source, hsource, hsome⟩ := hstages
      cases hsome
      exact ⟨source, between, widened, lowered, hsource, Release.lt_of_ofVersion hsource hnewer,
        hrun, widen_descends hwiden, happly, hcls⟩

/-- Behind a conversion nothing is left for those passes on the way down that take something out
for good. -/
theorem idle_of_convert (h : converter.convert cls session = (.ok (some cls'), session'))
    {source : Release} (hsource : Release.ofVersion cls.version = .ok source) {release : Nat}
    (habove : converter.target.number < release) (hbelow : release ≤ source.number)
    (stage : Stage) (hmem : stage ∈ Release.stagesOf release) (hlasting : stage.pass.Lasting) :
    stage.pass.Idle cls' := by
  obtain ⟨source', between, widened, lowered, hsource', _, hrun, hwidened, happly, rfl⟩ :=
    convert_run h
  obtain rfl : source' = source := by
    rw [hsource] at hsource'
    exact (Except.ok.inj hsource').symm
  have hbehind : stage.pass.Idle between :=
    idle_of_runStages hrun (Release.mem_stagesAbove habove (by omega) hmem) hlasting
  have hversion : lowered.cls.Descends { lowered.cls with version := converter.target.version } :=
    ⟨⟨id, id, id, id, id, id, id, id, .inl⟩, fun _ _ hold => hold⟩
  exact hlasting.idle_of_descends
    ((hwidened.trans (Pass.apply_descends happly)).trans hversion) hbehind

/-- **What is removed stays removed.**  A class that was brought down to a release has the version
of that release and nothing that is not understood, and it has none of the constructs that came with
the releases on the way, whatever the stages, the widening of calls and the code that they wrote did
to it afterwards. -/
theorem convert_removed (converter : Converter) (cls cls' : ClassFile) (session session' : Session)
    (h : converter.convert cls session = (.ok (some cls'), session')) :
    ∃ source, Release.ofVersion cls.version = .ok source ∧
      converter.target.number < source.number ∧
      cls'.version = converter.target.version ∧
      cls'.Stripped ∧
      (converter.target.number < 21 → 21 ≤ source.number →
        cls'.All (NotLinkedBy Switch.linkers)) ∧
      (converter.target.number < 17 → 17 ≤ source.number → cls'.permittedSubclasses = none) ∧
      (converter.target.number < 16 → 16 ≤ source.number →
        cls'.superClass ≠ some ClassName.javaRecord ∧
        (cls.superClass = some ClassName.javaRecord → cls'.recordComponents = none)) ∧
      (converter.target.number < 11 → 11 ≤ source.number →
        cls'.nestHost = none ∧ cls'.nestMembers = none ∧ cls'.All Constants.Plain) ∧
      (converter.target.number < 9 →
        cls'.moduleInfo = none ∧ cls'.modulePackages = none ∧ cls'.moduleMainClass = none ∧
        cls'.All (NotLinkedBy Concat.linkers)) := by
  obtain ⟨source, between, widened, lowered, hsource, hlt, hrun, hwidened, happly, hcls⟩ :=
    convert_run h
  refine ⟨source, hsource, hlt, by rw [hcls], ?_, ?_, ?_, ?_, ?_, ?_⟩
  · simp only [Pass.apply, within_eq_ok] at happly
    have hstripped : lowered.cls.Stripped := Pass.idle_of_run happly
    rw [hcls]
    exact ⟨hstripped.ofClass, hstripped.ofFields, hstripped.ofMethods, hstripped.ofCode,
      hstripped.ofComponents⟩
  · intro habove hbelow
    exact idle_of_convert h hsource habove hbelow
      (.once .dynamicSwitchPatterns) (by decide) trivial
  · intro habove hbelow
    exact idle_of_convert h hsource habove hbelow (.once .unsealClasses) (by decide) trivial
  · intro habove hbelow
    have hnot : cls'.superClass ≠ some ClassName.javaRecord :=
      idle_of_convert h hsource habove hbelow (.once .recordToClass) (by decide) trivial
    refine ⟨hnot, fun hrecord => ?_⟩
    have hdescends :=
      ((runStages_descends hrun).trans hwidened).trans (Pass.apply_descends happly)
    rw [hcls] at hnot ⊢
    exact (hdescends.record hrecord).resolve_left hnot
  · intro habove hbelow
    have hnest : Pass.nestHostToPackage.Idle cls' :=
      idle_of_convert h hsource habove hbelow (.once .nestHostToPackage) (by decide) trivial
    have hplain : Pass.explicitConstants.Idle cls' :=
      idle_of_convert h hsource habove hbelow
        (.fixedPoint .explicitConstants) (by decide) trivial
    exact ⟨hnest.1, hnest.2, hplain⟩
  · intro habove
    have hlowest := converter.target.lowest_le
    have hmodules : Pass.moduleRemover.Idle cls' :=
      idle_of_convert h hsource habove (by omega) (.once .moduleRemover) (by decide) trivial
    have hconcat : Pass.dynamicStringConcat.Idle cls' :=
      idle_of_convert h hsource habove (by omega)
        (.once .dynamicStringConcat) (by decide) trivial
    exact ⟨hmodules.1, hmodules.2.1, hmodules.2.2, hconcat⟩

/-- A sealed class of release 17 with its own nest, and a method that returns a dynamic constant. -/
def sealedClass : ClassFile :=
  { Pass.constantReturning (.ldc Pass.nullConstant) with
    version := ⟨61, 0⟩
    nestMembers := some ["a/A$B"]
    permittedSubclasses := some ["a/A$B"] }

/-- The sealed class as a class of release 8. -/
def unsealedClass : ClassFile :=
  { sealedClass with
    version := ⟨52, 0⟩
    nestMembers := none
    permittedSubclasses := none
    methods := [Method.ofCode { isStatic := true, isStrict := true } "f" "()Ljava/lang/Object;"
      { instructions := [⟨none, .op .aconstNull⟩, ⟨none, .op .areturn⟩] }] }

/-- In release 8 the sealed class has neither its nest nor its subclasses, and it loads null. -/
theorem convert_removed_sealedClass :
    (∃ session', convert ⟨⟨8, by decide, by decide⟩, none⟩ sealedClass {} =
        (.ok (some unsealedClass), session')) ∧
      unsealedClass.permittedSubclasses = none ∧ unsealedClass.nestMembers = none ∧
      unsealedClass.All Constants.Plain := by
  have houtcome : (convert ⟨⟨8, by decide, by decide⟩, none⟩ sealedClass {}).1 =
      .ok (some unsealedClass) := by decide +kernel
  obtain ⟨session', h⟩ : ∃ session', convert ⟨⟨8, by decide, by decide⟩, none⟩ sealedClass {} =
      (.ok (some unsealedClass), session') :=
    ⟨_, Prod.ext houtcome rfl⟩
  obtain ⟨source, hsource, _, _, _, _, hsealed, _, hnest, _⟩ :=
    convert_removed ⟨⟨8, by decide, by decide⟩, none⟩ sealedClass unsealedClass {} session' h
  obtain rfl : source = ⟨17, by decide, by decide⟩ := by
    have hseventeen : Release.ofVersion sealedClass.version =
        .ok ⟨17, by decide, by decide⟩ := by rfl
    rw [hseventeen] at hsource
    exact (Except.ok.inj hsource).symm
  obtain ⟨_, hmembers, hplain⟩ := hnest (by decide) (by decide)
  exact ⟨⟨session', h⟩, hsealed (by decide) (by decide), hmembers, hplain⟩

end Converter

end Downlevel
