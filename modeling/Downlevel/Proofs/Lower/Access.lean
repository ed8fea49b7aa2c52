import Downlevel.Proofs.Lower.Methods
import Downlevel.Proofs.Lower.Removal

/-!
# Who may call the methods of an interface

In an interface every method but the one that initializes it is either public or private.  Lowering
adds methods to interfaces and changes the access of those that are there.  The methods that it adds
to an interface are public, and so are the methods of records; but the pass that opens private
members to the package does so in interfaces as well, where nothing is open to just the package.

* `Method.Origin.keeps_access` — one method behind a pass;
* `Pass.run_keeps_access` — the methods of an interface behind a pass;
* `Converter.convert_keeps_access` — a converted interface has legal access, unless it is in a nest,
  has a private method, and goes from a release with nests to one without;
* `Converter.convert_opens_nestedInterface` — such an interface.
-/

namespace Downlevel

/-- A method of an interface is either public or private, unless it initializes the interface. -/
def Method.LegalAccess (method : Method) : Prop :=
  method.name ≠ MethodName.staticInitializer → method.access.isPublic ≠ method.access.isPrivate

/-- Every method of an interface is either public or private, but for the one that initializes
it. -/
def ClassFile.LegalAccess (cls : ClassFile) : Prop :=
  ∀ method ∈ cls.methods, method.LegalAccess

/-- A method is private and does not initialize its class. -/
def Method.IsHidden (method : Method) : Prop :=
  method.name ≠ MethodName.staticInitializer ∧ method.access.isPrivate = true

/-- In a class there is nothing to open to the package: it is not in a nest, or none of its methods
is hidden. -/
def ClassFile.NothingToOpen (cls : ClassFile) : Prop :=
  (cls.nestHost = none ∧ cls.nestMembers = none) ∨ ∀ method ∈ cls.methods, ¬ method.IsHidden

namespace Method

variable {pass : Pass} {cls : ClassFile} {method method' : Method}

/-- Where a method comes of another one, and its access is as before, it is as legal as before. -/
theorem Continues.legal (h : method.Continues method') (haccess : method'.access = method.access)
    (hlegal : method.LegalAccess) : method'.LegalAccess := by
  intro hname
  rw [haccess]
  exact hlegal (h.name ▸ hname)

/-- Where a method comes of another one, and its access is as before, it is hidden only if the other
one was. -/
theorem Continues.hidden (h : method.Continues method') (haccess : method'.access = method.access)
    (hhidden : method'.IsHidden) : method.IsHidden := by
  obtain ⟨hname, hprivate⟩ := hhidden
  exact ⟨h.name ▸ hname, haccess ▸ hprivate⟩

/-- A method that is added to an interface is public. -/
theorem legal_added (hinterface : cls.access.isInterface = true) (name : MethodName)
    (descriptor : MethodDescriptor) (code : Code) :
    (Method.ofCode cls.addedMethodAccess name descriptor code).LegalAccess ∧
      ¬ (Method.ofCode cls.addedMethodAccess name descriptor code).IsHidden := by
  constructor
  · intro _
    simp [Method.ofCode, ClassFile.addedMethodAccess, hinterface]
  · rintro ⟨-, hprivate⟩
    simp [Method.ofCode, ClassFile.addedMethodAccess, hinterface] at hprivate

/-- Passes keep the access of methods, or make them public, but for the pass that opens nests. -/
theorem alters_keeps {access access' : MethodAccess} (h : pass.Alters cls access access')
    (hopen : pass = .nestHostToPackage → cls.NothingToOpen) (hmem : method ∈ cls.methods)
    (haccess : method.access = access) (hname : method.name ≠ MethodName.staticInitializer)
    (hlegal : access.isPublic ≠ access.isPrivate) :
    access'.isPublic ≠ access'.isPrivate := by
  cases h with
  | same => exact hlegal
  | strict => exact hlegal
  | published => exact fun hsame => by cases hsame
  | opened nest =>
      have hprivate : access.isPrivate = false := by
        rcases hopen rfl with ⟨hhost, hmembers⟩ | hnone
        · rw [hhost, hmembers] at nest
          simp at nest
        · by_contra htrue
          exact hnone method hmem ⟨hname, by simpa [haccess] using htrue⟩
      simpa [hprivate] using hlegal

/-- No pass makes a method private that was not. -/
theorem alters_private {access access' : MethodAccess} (h : pass.Alters cls access access')
    (hprivate : access'.isPrivate = true) : access.isPrivate = true := by
  cases h with
  | same => exact hprivate
  | strict => exact hprivate
  | opened => cases hprivate
  | published => cases hprivate

/-- **One method behind a pass over an interface** has legal access, if the methods from before had
and there was nothing to open. -/
theorem Origin.keeps_access (h : method'.Origin pass cls)
    (hinterface : cls.access.isInterface = true) (hlegal : cls.LegalAccess)
    (hopen : pass = .nestHostToPackage → cls.NothingToOpen) : method'.LegalAccess := by
  cases h with
  | @kept method mem continues access =>
      intro hname
      rw [continues.name] at hname
      exact alters_keeps access hopen mem rfl hname (hlegal method mem hname)
  | @rewritten method code mem name access =>
      intro hname
      rw [name] at hname
      exact alters_keeps access hopen mem rfl hname (hlegal method mem hname)
  | @added name descriptor code writes eq =>
      rw [eq]
      exact (legal_added hinterface name descriptor code).1
  | initializer continues => exact fun hname => absurd continues.name hname

/-- **One method behind a pass over an interface** is hidden only if some method was. -/
theorem Origin.hidden (h : method'.Origin pass cls) (hinterface : cls.access.isInterface = true)
    (hhidden : method'.IsHidden) : ∃ method ∈ cls.methods, method.IsHidden := by
  obtain ⟨hname, hprivate⟩ := hhidden
  cases h with
  | @kept method mem continues access =>
      exact ⟨method, mem, continues.name ▸ hname, alters_private access hprivate⟩
  | @rewritten method code mem name access =>
      exact ⟨method, mem, name ▸ hname, alters_private access hprivate⟩
  | @added name descriptor code writes eq =>
      rw [eq] at hname hprivate
      exact absurd ⟨hname, hprivate⟩ (legal_added hinterface name descriptor code).2
  | initializer continues => exact absurd continues.name hname

end Method

namespace Pass

variable {pass : Pass} {cls : ClassFile} {lowered : Lowered}

/-- Behind a pass over an interface all methods have legal access, if they had before and there was
nothing to open. -/
theorem run_keeps_access (h : pass.run cls = .ok lowered)
    (hinterface : cls.access.isInterface = true) (hlegal : cls.LegalAccess)
    (hopen : pass = .nestHostToPackage → cls.NothingToOpen) : lowered.cls.LegalAccess :=
  fun method' hmem => (run_origin h method' hmem).keeps_access hinterface hlegal hopen

/-- Behind a pass over an interface there is nothing to open if there was nothing before. -/
theorem run_nothingToOpen (h : pass.run cls = .ok lowered)
    (hinterface : cls.access.isInterface = true) (hopen : cls.NothingToOpen) :
    lowered.cls.NothingToOpen := by
  rcases hopen with ⟨hhost, hmembers⟩ | hnone
  · have hfades := run_fades h
    exact .inl ⟨hfades.nestHost hhost, hfades.nestMembers hmembers⟩
  · refine .inr fun method' hmem hhidden => ?_
    obtain ⟨method, hmethod, hbefore⟩ := (run_origin h method' hmem).hidden hinterface hhidden
    exact hnone method hmethod hbefore

/-- No pass changes the flags of a class. -/
theorem run_access (h : pass.run cls = .ok lowered) : lowered.cls.access = cls.access := by
  cases pass with
  | dynamicStringConcat =>
      obtain ⟨methods, hcls⟩ := ClassFile.replaceCallSites_frame h
      rw [hcls]
  | dynamicSwitchPatterns =>
      obtain ⟨methods, hcls⟩ := ClassFile.replaceCallSites_frame h
      rw [hcls]
  | explicitConstants =>
      obtain ⟨fields, methods, hcls⟩ := Constants.dynamicConstants_frame h
      rw [hcls]
  | nestHostToPackage =>
      cases h
      unfold Lower.openNest
      split <;> rfl
  | recordToClass =>
      simp only [run, Lower.recordToClass] at h
      split at h
      · simp only [bind_eq_ok, pure_eq_ok] at h
        obtain ⟨methods, _, rfl⟩ := h
        rfl
      · simp only [pure_eq_ok] at h
        rw [← h]
        rfl
  | moduleRemover | alwaysStrict | unsealClasses | matchExceptionFixer | removeAttributes =>
      cases h
      rfl

end Pass

namespace Release

/-- Nests came with release 11. -/
theorem eq_eleven_of_opens {release : Nat} {stage : Stage} (h : stage ∈ stagesOf release)
    (hpass : stage.pass = .nestHostToPackage) : release = 11 := by
  unfold stagesOf at h
  split at h
  case h_2 => rfl
  all_goals
    simp only [List.mem_cons, List.not_mem_nil, or_false] at h
    try rcases h with rfl | rfl
    all_goals cases hpass

end Release

namespace Converter

variable {converter : Converter} {cls cls' : ClassFile} {session session' : Session}

/-- Bringing an interface down opens private methods of it to the package: it goes from a release with
nests to one without, it is in a nest, and one of its methods is hidden. -/
def OpensHidden (converter : Converter) (cls : ClassFile) : Prop :=
  (converter.target.number < 11 ∧
      ∃ source, Release.ofVersion cls.version = .ok source ∧ 11 ≤ source.number) ∧
    (cls.nestHost ≠ none ∨ cls.nestMembers ≠ none) ∧ ∃ method ∈ cls.methods, method.IsHidden

/-- What holds of an interface all the way down from one with legal access: it stays an interface with
legal access, and there is nothing to open when a nest is opened. -/
structure Guarded (converter : Converter) (source cls : ClassFile) : Prop where
  isInterface : cls.access.isInterface = true
  legal : cls.LegalAccess
  nothing : converter.Runs source .nestHostToPackage → cls.NothingToOpen

/-- A pass that is run keeps an interface guarded. -/
theorem Guarded.run {source : ClassFile} {pass : Pass} {lowered : Lowered}
    (h : converter.Guarded source cls) (hruns : converter.Runs source pass)
    (hrun : pass.run cls = .ok lowered) : converter.Guarded source lowered.cls where
  isInterface := Pass.run_access hrun ▸ h.isInterface
  legal := Pass.run_keeps_access hrun h.isInterface h.legal fun hpass => h.nothing (hpass ▸ hruns)
  nothing hopener := Pass.run_nothingToOpen hrun h.isInterface (h.nothing hopener)

/-- Widening calls keeps an interface guarded. -/
theorem Guarded.widen {source : ClassFile} {table : SymbolTable}
    (h : converter.Guarded source cls)
    (hwiden : table.widenCalls cls session = (.ok cls', session')) :
    converter.Guarded source cls' := by
  have horigin := SymbolTable.widenCalls_methods hwiden
  obtain ⟨methods, _, rfl⟩ := SymbolTable.widenCalls_run hwiden
  refine ⟨h.isInterface, fun method' hmem => ?_, fun hopener => ?_⟩
  · obtain ⟨method, hmethod, hcontinues, hsame⟩ := horigin method' hmem
    exact hcontinues.legal hsame (h.legal method hmethod)
  · refine (h.nothing hopener).imp_right fun hnone method' hmem hhidden => ?_
    obtain ⟨method, hmethod, hcontinues, hsame⟩ := horigin method' hmem
    exact hnone method hmethod (hcontinues.hidden hsame hhidden)

/-- The pass that opens nests is run from a release with nests to one without. -/
theorem runs_opener (h : converter.Runs cls .nestHostToPackage) :
    converter.target.number < 11 ∧
      ∃ source, Release.ofVersion cls.version = .ok source ∧ 11 ≤ source.number := by
  rcases h with hnever | ⟨stages, hstages, stage, hstage, hpass⟩
  · cases hnever
  · unfold Release.stagesFrom at hstages
    split at hstages
    · cases hstages
    · next hnewer =>
        simp only [bind_eq_ok, pure_eq_ok, Option.some.injEq] at hstages
        obtain ⟨source, hsource, rfl⟩ := hstages
        have habove := Release.lt_of_ofVersion hsource hnewer
        obtain ⟨release, hlow, hhigh, hmem⟩ := Release.of_mem_stagesAbove hstage
        obtain rfl := Release.eq_eleven_of_opens hmem hpass
        exact ⟨hlow, source, hsource, by omega⟩

/-- **A converted interface has legal access**: if all methods of an interface were either public or
private, but for the one that initializes it, then so are all methods of what a conversion makes of
it, the old ones and those that were added.  The exception are interfaces with private methods whose
nest is opened on the way. -/
theorem convert_keeps_access (converter : Converter) (cls cls' : ClassFile)
    (session session' : Session)
    (h : converter.convert cls session = (.ok (some cls'), session'))
    (hinterface : cls.access.isInterface = true) (hlegal : cls.LegalAccess)
    (hopens : ¬ converter.OpensHidden cls) : cls'.LegalAccess := by
  have hopen : converter.Runs cls .nestHostToPackage → cls.NothingToOpen := by
    intro hruns
    by_contra hnot
    simp only [ClassFile.NothingToOpen, not_or, not_and_or, not_forall, not_not] at hnot
    obtain ⟨hnest, method, hmethod, hhidden⟩ := hnot
    exact hopens ⟨runs_opener hruns, hnest, method, hmethod, hhidden⟩
  have hguarded : converter.Guarded cls cls' :=
    convert_keeps (fun _ hruns _ _ hrun hbefore => hbefore.run hruns hrun)
      (fun _ _ _ _ _ hwiden hbefore => hbefore.widen hwiden)
      (fun _ _ hbefore => ⟨hbefore.isInterface, hbefore.legal, hbefore.nothing⟩) h
      ⟨hinterface, hlegal, hopen⟩
  exact hguarded.legal

/-- An interface of release 11 that is in a nest, with a static method of some access. -/
def nestedInterface (access : MethodAccess) : ClassFile :=
  { version := ⟨55, 0⟩
    access := { isInterface := true, isAbstract := true }
    name := "a/A"
    superClass := some ClassName.javaObject
    interfaces := []
    nestMembers := some ["a/A$B"]
    methods := [Method.ofCode access "f" "()V"
      { instructions := [Instruction.plain (.op .returnVoid)] }] }

/-- The interface as one of release 8, with a static method of some access. -/
def openedInterface (access : MethodAccess) : ClassFile :=
  { nestedInterface access with version := ⟨52, 0⟩, nestMembers := none }

/-- An interface with one method has legal access if that method is either public or private. -/
theorem legal_nestedInterface {access : MethodAccess} (h : access.isPublic ≠ access.isPrivate) :
    (nestedInterface access).LegalAccess := by
  intro method hmem _
  rw [List.mem_singleton.mp hmem]
  exact h

/-- In release 8 an interface that was in a nest still has its public method. -/
theorem convert_keeps_access_nestedInterface :
    (∃ session', convert ⟨⟨8, by decide, by decide⟩, none⟩
        (nestedInterface { isPublic := true, isStatic := true }) {} =
      (.ok (some (openedInterface { isPublic := true, isStatic := true })), session')) ∧
      (openedInterface { isPublic := true, isStatic := true }).LegalAccess := by
  have houtcome : (convert ⟨⟨8, by decide, by decide⟩, none⟩
      (nestedInterface { isPublic := true, isStatic := true }) {}).1 =
      .ok (some (openedInterface { isPublic := true, isStatic := true })) := rfl
  obtain ⟨session', h⟩ : ∃ session', convert ⟨⟨8, by decide, by decide⟩, none⟩
      (nestedInterface { isPublic := true, isStatic := true }) {} =
      (.ok (some (openedInterface { isPublic := true, isStatic := true })), session') :=
    ⟨_, Prod.ext houtcome rfl⟩
  refine ⟨⟨session', h⟩, convert_keeps_access _ _ _ _ _ h rfl
    (legal_nestedInterface (by decide)) ?_⟩
  rintro ⟨-, -, method, hmem, -, hprivate⟩
  rw [List.mem_singleton.mp hmem] at hprivate
  cases hprivate

/-- In release 8 the private method of an interface that was in a nest is neither public nor
private. -/
theorem convert_opens_nestedInterface :
    (nestedInterface { isPrivate := true, isStatic := true }).LegalAccess ∧
      (∃ session', convert ⟨⟨8, by decide, by decide⟩, none⟩
          (nestedInterface { isPrivate := true, isStatic := true }) {} =
        (.ok (some (openedInterface { isStatic := true })), session')) ∧
      ¬ (openedInterface { isStatic := true }).LegalAccess := by
  have houtcome : (convert ⟨⟨8, by decide, by decide⟩, none⟩
      (nestedInterface { isPrivate := true, isStatic := true }) {}).1 =
      .ok (some (openedInterface { isStatic := true })) := rfl
  refine ⟨legal_nestedInterface (by decide), ⟨_, Prod.ext houtcome rfl⟩, fun hlegal => ?_⟩
  exact hlegal _ (List.mem_singleton.mpr rfl) (by decide) rfl

end Converter

end Downlevel
