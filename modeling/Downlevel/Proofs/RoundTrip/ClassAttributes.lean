import Downlevel.Proofs.RoundTrip.Method

/-!
# Attributes of classes that are written and read again

What a reader promises of a class, and how its attributes lead from the bare class to the whole.
The attributes are read into a class and beside it into the bootstrap methods, which none of the
attributes here touches.

* `gives_classAttribute` — every attribute that is read keeps what a reader promises;
* `addsAll_class` — the attributes of a class that keeps the promise are read again.
-/

namespace Downlevel

/-- What an option that was looked up holds was looked up. -/
theorem Pool.Table.optional_some {α : Type} {index : UInt16} {look : UInt16 → Except Error α}
    {result : Option α} (h : optional index look = .ok result) {value : α}
    (hvalue : result = some value) : look index = .ok value := by
  subst hvalue
  obtain ⟨-, hnone⟩ | ⟨-, found, hfound, hsome⟩ := optional_eq_ok.mp h
  · cases hnone
  · cases hsome
    exact hfound

namespace Encode

open Pool PoolM Parse

section Parts

/-- A class that may be missing is put and looked up again. -/
theorem puts_optionalCls {name : Option ClassName}
    (h : ∀ found, name = some found → Name.isValid .className found) :
    Puts (indexed (PoolM.optional name PoolM.cls)) fun constants bytes =>
      ∃ index, bytes = Bytes.ofU16 index ∧
        Table.optional index constants.table.cls = .ok name :=
  puts_indexed (puts_optional fun found hfound => puts_cls (h found hfound))

/-- A text that may be missing is put and looked up again. -/
theorem puts_optionalUtf8 (text : Option String) :
    Puts (indexed (PoolM.optional text PoolM.utf8)) fun constants bytes =>
      ∃ index, bytes = Bytes.ofU16 index ∧
        Table.optional index constants.table.utf8 = .ok text :=
  puts_indexed (puts_optional fun found _ => puts_utf8 found)

/-- A class is kept as an index. -/
theorem kept_cls {name : ClassName} (h : Name.isValid .className name) :
    Kept (fun name => indexed (PoolM.cls name))
      (fun constants => do constants.table.cls (← u16)) name :=
  kept_indexed ((puts_cls h).mono fun _ _ hindex => hindex.2)

/-- A list of classes is kept if their names are proper. -/
theorem kept_classes (what : String) {names : List ClassName}
    (h : ∀ name ∈ names, Name.isValid .className name) :
    Kept (fun names => listOf what names fun name => indexed (PoolM.cls name))
      (fun constants => Decode.classes constants.table) names :=
  kept_listOf what fun name hname => kept_cls (h name hname)

/-- A list of modules is kept. -/
theorem kept_modules (what : String) (names : List ModuleName) :
    Kept (fun names => listOf what names fun name => indexed (PoolM.module name))
      (fun constants => Parse.listOf do constants.table.module (← u16)) names :=
  kept_listOf what fun name _ => kept_indexed (puts_module name)

/-- A list of packages is kept. -/
theorem kept_packages (what : String) (names : List PackageName) :
    Kept (fun names => listOf what names fun name => indexed (PoolM.package name))
      (fun constants => Parse.listOf do constants.table.package (← u16)) names :=
  kept_listOf what fun name _ => kept_indexed (puts_package name)

/-- Every inner class that is read is kept. -/
theorem gives_innerClass (table : Table) :
    Gives (Decode.innerClass table)
      (Kept innerClass fun constants => Decode.innerClass constants.table) := by
  refine .after fun _ => .look fun inner hinner => .after fun _ => .look fun outer houter => ?_
  refine .after fun _ => .look fun name _ => .after fun bits => gives_pure ?_
  refine (puts_indexed (puts_cls (Table.cls_valid hinner))).bind fun _ => ?_
  refine (puts_optionalCls fun found hfound =>
    Table.cls_valid (Table.optional_some houter hfound)).bind fun _ => ?_
  refine (puts_optionalUtf8 name).map ?_
  rintro constants _ ⟨name', rfl, hname'⟩ ⟨outer', rfl, houter'⟩ ⟨inner', rfl, -, hinner'⟩
  simp only [List.append_assoc]
  refine (reads_u16 inner').bind (.look hinner' ((reads_u16 outer').bind (.look houter' ?_)))
  refine (reads_u16 name').bind (.look hname' ((reads_u16 _).finish ?_))
  rw [InnerClassFlags.ofBits_toBits]
  exact reads_pure _

/-- A module that is required is kept. -/
theorem kept_requirement (requirement : Requirement) :
    Kept (fun r : Requirement => do
      let name ← indexed (PoolM.module r.name)
      let version ← indexed (PoolM.optional r.version PoolM.utf8)
      return name ++ Bytes.ofU16 r.flags.toBits ++ version)
      (fun constants => do
        let name ← constants.table.module (← u16)
        let flags := ModuleRequiresFlags.ofBits (← u16)
        return ⟨name, flags, ← Table.optional (← u16) constants.table.utf8⟩) requirement := by
  refine (puts_indexed (puts_module _)).bind fun _ => (puts_optionalUtf8 _).map ?_
  rintro constants _ ⟨version, rfl, hversion⟩ ⟨name, rfl, hname⟩
  simp only [List.append_assoc]
  refine (reads_u16 name).bind (.look hname ((reads_u16 _).bind ?_))
  rw [ModuleRequiresFlags.ofBits_toBits]
  exact (reads_u16 version).finish (.look hversion (reads_pure _))

/-- A package that is exported is kept. -/
theorem kept_exported (exported : ExportedPackage) :
    Kept (fun e : ExportedPackage => do
      let name ← indexed (PoolM.package e.name)
      let receivers ← listOf "modules to export to" e.receivers fun m => indexed (PoolM.module m)
      return name ++ Bytes.ofU16 e.flags.toBits ++ receivers)
      (fun constants => do
        let name ← constants.table.package (← u16)
        let flags := ModuleExportsFlags.ofBits (← u16)
        return ⟨name, flags, ← Parse.listOf do constants.table.module (← u16)⟩) exported := by
  refine (puts_indexed (puts_package _)).bind fun _ => Puts.map (kept_modules _ exported.receivers) ?_
  rintro constants bytes hreceivers ⟨name, rfl, hname⟩
  simp only [List.append_assoc]
  refine (reads_u16 name).bind (.look hname ((reads_u16 _).bind ?_))
  rw [ModuleExportsFlags.ofBits_toBits]
  exact hreceivers.finish (reads_pure _)

/-- A package that is opened is kept. -/
theorem kept_opened (opened : OpenedPackage) :
    Kept (fun e : OpenedPackage => do
      let name ← indexed (PoolM.package e.name)
      let receivers ← listOf "modules to open to" e.receivers fun m => indexed (PoolM.module m)
      return name ++ Bytes.ofU16 e.flags.toBits ++ receivers)
      (fun constants => do
        let name ← constants.table.package (← u16)
        let flags := ModuleOpensFlags.ofBits (← u16)
        return ⟨name, flags, ← Parse.listOf do constants.table.module (← u16)⟩) opened := by
  refine (puts_indexed (puts_package _)).bind fun _ => Puts.map (kept_modules _ opened.receivers) ?_
  rintro constants bytes hreceivers ⟨name, rfl, hname⟩
  simp only [List.append_assoc]
  refine (reads_u16 name).bind (.look hname ((reads_u16 _).bind ?_))
  rw [ModuleOpensFlags.ofBits_toBits]
  exact hreceivers.finish (reads_pure _)

/-- A service is kept if the names of its classes are proper. -/
theorem kept_provided {provided : ProvidedService}
    (hservice : Name.isValid .className provided.service)
    (hproviders : ∀ name ∈ provided.providers, Name.isValid .className name) :
    Kept (fun p : ProvidedService => do
      let service ← indexed (PoolM.cls p.service)
      let providers ←
        listOf "implementations provided" p.providers fun c => indexed (PoolM.cls c)
      return service ++ providers)
      (fun constants => do
        let service ← constants.table.cls (← u16)
        return ⟨service, ← Decode.classes constants.table⟩) provided := by
  refine (puts_indexed (puts_cls hservice)).bind fun _ => Puts.map (kept_classes _ hproviders) ?_
  rintro constants bytes hread ⟨service, rfl, -, hservice⟩
  exact (reads_u16 service).bind (.look hservice (hread.finish (reads_pure _)))

/-- **Every description of a module that is read is kept.** -/
theorem gives_moduleInfo (table : Table) :
    Gives (Decode.moduleInfo table)
      (Kept moduleInfo fun constants => Decode.moduleInfo constants.table) := by
  refine .after fun _ => .look fun name _ => .after fun bits => .after fun _ => ?_
  refine .look fun version _ => .after fun requirements => .after fun exported => ?_
  refine .after fun opened => (gives_classes table).bind fun used hused => ?_
  have hprovided : Gives (Parse.listOf do
      let service ← table.cls (← u16)
      return (⟨service, ← Decode.classes table⟩ : ProvidedService)) fun services =>
        ∀ p ∈ services, Name.isValid .className p.service ∧
          ∀ name ∈ p.providers, Name.isValid .className name := by
    refine gives_listOf (.after fun _ => .look fun service hservice => ?_)
    exact (gives_classes table).bind fun providers hproviders =>
      gives_pure ⟨Table.cls_valid hservice, hproviders⟩
  refine hprovided.bind fun provided hprovided => gives_pure ?_
  refine (puts_indexed (puts_module _)).bind fun _ => (puts_optionalUtf8 _).bind fun _ => ?_
  refine Puts.bind (kept_listOf _ fun r _ => kept_requirement r) fun _ => ?_
  refine Puts.bind (kept_listOf _ fun e _ => kept_exported e) fun _ => ?_
  refine Puts.bind (kept_listOf _ fun e _ => kept_opened e) fun _ => ?_
  refine Puts.bind (kept_classes _ hused) fun _ => ?_
  refine Puts.map (kept_listOf _ fun p hp =>
    kept_provided (hprovided p hp).1 (hprovided p hp).2) ?_
  rintro constants _ hprovided hused hopened hexported hrequirements ⟨version', rfl, hversion⟩
    ⟨name', rfl, hname⟩
  simp only [List.append_assoc]
  refine (reads_u16 name').bind (.look hname ((reads_u16 _).bind ?_))
  rw [ModuleFlags.ofBits_toBits]
  refine (reads_u16 version').bind (.look hversion (hrequirements.bind (hexported.bind ?_)))
  exact hopened.bind (hused.bind (hprovided.finish (reads_pure _)))

end Parts

section Reading

/-- Reading an attribute of a class. -/
abbrev classStep (constants : Constants) :
    String → Nat → ClassFile × Option (List Bootstrap) →
      Parse (ClassFile × Option (List Bootstrap)) :=
  Decode.classAttribute constants.table

/-- Adding an attribute to a class that is kept as it is. -/
def addToClass (state : ClassFile × Option (List Bootstrap)) (other : RawAttribute) :
    ClassFile × Option (List Bootstrap) :=
  ({ state.1 with attributes := state.1.attributes ++ [other] }, state.2)

/-- A class that a reader can give. -/
structure KeptClass (cls : ClassFile) : Prop where
  version : cls.version.major ≤ Version.newestMajor
  name : Name.isValid .className cls.name
  superClass : ∀ name, cls.superClass = some name → Name.isValid .className name
  interfaces : ∀ name ∈ cls.interfaces, Name.isValid .className name
  fields : ∀ field ∈ cls.fields, KeptField field
  methods : ∀ method ∈ cls.methods, KeptMethod method
  innerClasses : ∀ items, cls.innerClasses = some items → ∀ item ∈ items,
    Kept innerClass (fun constants => Decode.innerClass constants.table) item
  enclosing : ∀ enclosing, cls.enclosing = some enclosing →
    Name.isValid .className enclosing.owner ∧ ∀ id, enclosing.method = some id →
      Name.isValid .methodName id.name ∧ Name.isValid .methodDescriptor id.descriptor
  annots : KeptAnnots cls.annots
  moduleInfo : ∀ info, cls.moduleInfo = some info →
    Kept moduleInfo (fun constants => Decode.moduleInfo constants.table) info
  moduleMainClass : ∀ name, cls.moduleMainClass = some name → Name.isValid .className name
  nestHost : ∀ name, cls.nestHost = some name → Name.isValid .className name
  nestMembers : ∀ names, cls.nestMembers = some names →
    ∀ name ∈ names, Name.isValid .className name
  permittedSubclasses : ∀ names, cls.permittedSubclasses = some names →
    ∀ name ∈ names, Name.isValid .className name
  recordComponents : ∀ components, cls.recordComponents = some components →
    components.length < 65536 ∧ ∀ component ∈ components, KeptComponent component
  attributes : ∀ one ∈ cls.attributes, IsRaw classStep addToClass one.name

/-- Bootstrap methods that a reader can give, if there are any. -/
def KeptBootstraps (bootstraps : Option (List Bootstrap)) : Prop :=
  ∀ found, bootstraps = some found → ∀ bootstrap ∈ found, KeptBootstrap bootstrap

/-- Every bootstrap method that is read is one that a reader can give. -/
theorem gives_bootstrap (table : Table) : Gives (Decode.bootstrap table) KeptBootstrap := by
  refine .after fun _ => .look fun handle hhandle => ?_
  exact gives_listOf_length.bind fun arguments harguments =>
    gives_pure ⟨Table.handle_valid hhandle, harguments⟩

/-- **Every attribute of a class keeps what a reader promises.** -/
theorem gives_classAttribute (table : Table) (name : String) (size : Nat)
    {state : ClassFile × Option (List Bootstrap)} (h : KeptClass state.1)
    (hbootstraps : KeptBootstraps state.2) :
    Gives (Decode.classAttribute table name size state) fun state =>
      KeptClass state.1 ∧ KeptBootstraps state.2 := by
  obtain ⟨cls, bootstraps⟩ := state
  unfold Decode.classAttribute
  simp only
  cases hannots : Decode.annotAttribute? table name cls.annots with
  | some read =>
      refine (gives_annotAttribute hannots h.annots).bind fun annots hnew => ?_
      exact gives_pure ⟨{ h with annots := hnew }, hbootstraps⟩
  | none =>
      simp only
      split
      case h_1 => exact gives_pure ⟨{ h with }, hbootstraps⟩
      case h_2 => exact gives_pure ⟨{ h with }, hbootstraps⟩
      case h_3 =>
        refine (gives_listOf (gives_innerClass table)).bind fun items hnew => gives_once ?_
        exact gives_pure ⟨{ h with innerClasses := by rintro _ ⟨⟩; exact hnew }, hbootstraps⟩
      case h_4 =>
        refine .after fun _ => .look fun owner howner => .after fun _ => .look fun id hid => ?_
        refine gives_once ?_
        refine gives_pure ⟨{ h with enclosing := ?_ }, hbootstraps⟩
        rintro _ ⟨⟩
        exact ⟨Table.cls_valid howner, fun found hfound =>
          Table.methodId_valid (Table.optional_some hid hfound)⟩
      case h_5 =>
        exact .after fun _ => .look fun _ _ => .look fun _ _ => gives_pure ⟨{ h with }, hbootstraps⟩
      case h_6 =>
        exact .after fun _ => .look fun _ _ => .look fun _ _ => gives_pure ⟨{ h with }, hbootstraps⟩
      case h_7 => exact .after fun _ => .look fun _ _ => gives_pure ⟨{ h with }, hbootstraps⟩
      case h_8 =>
        refine (gives_moduleInfo table).bind fun info hnew => gives_once ?_
        exact gives_pure ⟨{ h with moduleInfo := by rintro _ ⟨⟩; exact hnew }, hbootstraps⟩
      case h_9 => exact .after fun _ => .look fun _ _ => gives_pure ⟨{ h with }, hbootstraps⟩
      case h_10 =>
        refine .after fun _ => .look fun found hfound => gives_once ?_
        refine gives_pure ⟨{ h with moduleMainClass := ?_ }, hbootstraps⟩
        rintro _ ⟨⟩
        exact Table.cls_valid hfound
      case h_11 =>
        refine .after fun _ => .look fun found hfound => gives_once ?_
        refine gives_pure ⟨{ h with nestHost := ?_ }, hbootstraps⟩
        rintro _ ⟨⟩
        exact Table.cls_valid hfound
      case h_12 =>
        refine (gives_classes table).bind fun names hnew => gives_once ?_
        exact gives_pure ⟨{ h with nestMembers := by rintro _ ⟨⟩; exact hnew }, hbootstraps⟩
      case h_13 =>
        refine (gives_classes table).bind fun names hnew => gives_once ?_
        exact gives_pure ⟨{ h with permittedSubclasses := by rintro _ ⟨⟩; exact hnew }, hbootstraps⟩
      case h_14 =>
        refine (gives_listOf_length.and (gives_listOf (gives_recordComponent table))).bind
          fun components hnew => gives_once ?_
        exact gives_pure ⟨{ h with recordComponents := by rintro _ ⟨⟩; exact hnew }, hbootstraps⟩
      case h_15 =>
        refine (gives_listOf (gives_bootstrap table)).bind fun found hnew => gives_once ?_
        exact gives_pure ⟨h, by rintro _ ⟨⟩; exact hnew⟩
      case h_16 =>
        have hraw : IsRaw classStep addToClass name := by
          rintro constants size ⟨cls', bootstraps'⟩
          simp only [classStep, Decode.classAttribute, annotAttribute?_eq_none hannots]
          rfl
        refine (gives_raw name size).bind ?_
        rintro other rfl
        exact gives_pure ⟨{ h with attributes := isRaw_append h.attributes hraw }, hbootstraps⟩

end Reading

section Writing

/-- Adding attributes that are kept as they are adds them all. -/
theorem foldl_addToClass (kept : List RawAttribute)
    (state : ClassFile × Option (List Bootstrap)) :
    kept.foldl addToClass state =
      ({ state.1 with attributes := state.1.attributes ++ kept }, state.2) := by
  induction kept generalizing state with
  | nil => simp
  | cons one kept ih => simp [ih, addToClass]

/-- A class reads attributes with annotations as its own. -/
theorem bears_class :
    Bears classStep (fun state => state.1.annots)
      (fun state annots => ({ state.1 with annots }, state.2)) where
  get_set _ _ := rfl
  set_set _ _ _ := rfl
  set_get _ := rfl
  reads constants name size state read h := by
    simp only [classStep, Decode.classAttribute, h]

/-- A class without its members, as far as the first attributes tell. -/
def classUpTo (cls : ClassFile) (n : Nat) : ClassFile where
  version := cls.version
  access := cls.access
  name := cls.name
  superClass := cls.superClass
  interfaces := cls.interfaces
  isDeprecated := if 0 < n then cls.isDeprecated else false
  isSynthetic := if 1 < n then cls.isSynthetic else false
  innerClasses := if 2 < n then cls.innerClasses else none
  enclosing := if 3 < n then cls.enclosing else none
  signature := if 4 < n then cls.signature else none
  sourceFile := if 5 < n then cls.sourceFile else none
  sourceDebugExtension := if 6 < n then cls.sourceDebugExtension else none
  annots := if 7 < n then cls.annots else {}
  moduleInfo := if 8 < n then cls.moduleInfo else none
  modulePackages := if 9 < n then cls.modulePackages else none
  moduleMainClass := if 10 < n then cls.moduleMainClass else none
  nestHost := if 11 < n then cls.nestHost else none
  nestMembers := if 12 < n then cls.nestMembers else none
  permittedSubclasses := if 13 < n then cls.permittedSubclasses else none
  recordComponents := if 14 < n then cls.recordComponents else none
  attributes := if 15 < n then cls.attributes else []

/-- What one attribute adds to a class. -/
abbrev AddsToClass (attribute' : Option (PoolM Bytes)) (cls cls' : ClassFile) : Prop :=
  Adds classStep attribute' (cls, none) (cls', none)

variable {cls : ClassFile}

/-- The first attributes of a class lead up to its annotations. -/
theorem addsAll_front (h : KeptClass cls) :
    AddsAll classStep
      (markers cls.isDeprecated cls.isSynthetic ++
        [cls.innerClasses.map fun items =>
            sized "InnerClasses" (listOf "inner classes" items innerClass),
          cls.enclosing.map fun enclosing => fixed "EnclosingMethod" 4 do
            let owner ← indexed (PoolM.cls enclosing.owner)
            let method ← indexed (PoolM.optional enclosing.method fun id =>
              PoolM.nameAndType id.name id.descriptor)
            return owner ++ method,
          signature cls.signature,
          cls.sourceFile.map fun file => single "SourceFile" (PoolM.utf8 file),
          cls.sourceDebugExtension.map fun bytes =>
            fixed "SourceDebugExtension" bytes.length (pure bytes)])
      (classUpTo cls 0, none) (classUpTo cls 7, none) := by
  have hdeprecated : AddsToClass (given cls.isDeprecated (marker "Deprecated"))
      (classUpTo cls 0) (classUpTo cls 1) :=
    adds_marker (fun marked => ({ classUpTo cls 0 with isDeprecated := marked }, none))
      fun _ => reads_pure _
  have hsynthetic : AddsToClass (given cls.isSynthetic (marker "Synthetic"))
      (classUpTo cls 1) (classUpTo cls 2) :=
    adds_marker (fun marked => ({ classUpTo cls 1 with isSynthetic := marked }, none))
      fun _ => reads_pure _
  have hinner : AddsToClass (cls.innerClasses.map fun items =>
        sized "InnerClasses" (listOf "inner classes" items innerClass))
      (classUpTo cls 2) (classUpTo cls 3) :=
    adds_once "InnerClasses" (fun items => ({ classUpTo cls 2 with innerClasses := items }, none))
      (fun items hitems => carries_sized _ (kept_listOf _ (h.innerClasses items hitems)))
      fun _ _ => rfl
  have henclosing : AddsToClass (cls.enclosing.map fun enclosing => fixed "EnclosingMethod" 4 do
        let owner ← indexed (PoolM.cls enclosing.owner)
        let method ← indexed (PoolM.optional enclosing.method fun id =>
          PoolM.nameAndType id.name id.descriptor)
        return owner ++ method)
      (classUpTo cls 3) (classUpTo cls 4) := by
    refine adds_map "EnclosingMethod"
      (fun enclosing => ({ classUpTo cls 3 with enclosing }, none)) fun enclosing henclosing => ?_
    obtain ⟨howner, hmethod⟩ := h.enclosing enclosing henclosing
    have hid : Puts (indexed (PoolM.optional enclosing.method fun id =>
        PoolM.nameAndType id.name id.descriptor)) fun constants bytes =>
          ∃ index, bytes = Bytes.ofU16 index ∧
            Table.optional index constants.table.methodId = .ok enclosing.method :=
      puts_indexed (puts_optional fun id hid =>
        puts_methodId (hmethod id hid).1 (hmethod id hid).2)
    refine carries_fixed _ ((puts_indexed (puts_cls howner)).bind fun _ => hid.map ?_)
    rintro constants _ ⟨id, rfl, hid⟩ ⟨owner, rfl, -, howner⟩
    refine ⟨by rw [List.length_append, Bytes.length_ofU16, Bytes.length_ofU16], ?_⟩
    refine (reads_u16 owner).bind (.look howner ((reads_u16 id).finish (.look hid ?_)))
    exact .look (once_none _ _) (reads_pure _)
  have hsignature : AddsToClass (signature cls.signature) (classUpTo cls 4) (classUpTo cls 5) :=
    adds_signature (fun text => ({ classUpTo cls 4 with signature := text }, none)) fun _ _ => rfl
  have hsource : AddsToClass (cls.sourceFile.map fun file => single "SourceFile" (PoolM.utf8 file))
      (classUpTo cls 5) (classUpTo cls 6) :=
    adds_look "SourceFile" (fun text => ({ classUpTo cls 5 with sourceFile := text }, none))
      (fun text _ => (puts_utf8 text).mono fun _ _ h => h.2) fun _ _ => rfl
  have hdebug : AddsToClass (cls.sourceDebugExtension.map fun bytes =>
        fixed "SourceDebugExtension" bytes.length (pure bytes))
      (classUpTo cls 6) (classUpTo cls 7) := by
    refine adds_map "SourceDebugExtension"
      (fun bytes => ({ classUpTo cls 6 with sourceDebugExtension := bytes }, none)) ?_
    intro bytes _
    refine (carries_fixed _ (puts_pure fun _ => ⟨rfl, rfl⟩) :
      Carries _ (fun _ contents => contents = bytes) _).mono ?_
    rintro constants _ rfl
    exact (reads_take _).finish (.look (once_none _ _) (reads_pure _))
  exact .append (.cons hdeprecated (.cons hsynthetic (.nil _))) (.cons hinner (.cons henclosing
    (.cons hsignature (.cons hsource (.cons hdebug (.nil _))))))

/-- The other attributes of a class lead on from its annotations. -/
theorem addsAll_back (h : KeptClass cls) :
    AddsAll classStep
      [cls.moduleInfo.map fun info => sized "Module" (moduleInfo info),
        cls.modulePackages.map fun packages =>
          sized "ModulePackages" (listOf "module packages" packages fun p =>
            indexed (PoolM.package p)),
        cls.moduleMainClass.map fun name => single "ModuleMainClass" (PoolM.cls name),
        cls.nestHost.map fun name => single "NestHost" (PoolM.cls name),
        cls.nestMembers.map (classList "NestMembers"),
        cls.permittedSubclasses.map (classList "PermittedSubclasses"),
        cls.recordComponents.map fun components =>
          sized "Record" (listOf "record components" components fun component =>
            (recordComponent component).within (.inComponent component.name))]
      (classUpTo cls 8, none) (classUpTo cls 15, none) := by
  have hmodule : AddsToClass (cls.moduleInfo.map fun info => sized "Module" (moduleInfo info))
      (classUpTo cls 8) (classUpTo cls 9) :=
    adds_once "Module" (fun info => ({ classUpTo cls 8 with moduleInfo := info }, none))
      (fun info hinfo => carries_sized _ (h.moduleInfo info hinfo)) fun _ _ => rfl
  have hpackages : AddsToClass (cls.modulePackages.map fun packages =>
        sized "ModulePackages" (listOf "module packages" packages fun p =>
          indexed (PoolM.package p)))
      (classUpTo cls 9) (classUpTo cls 10) :=
    adds_once "ModulePackages"
      (fun packages => ({ classUpTo cls 9 with modulePackages := packages }, none))
      (fun packages _ => carries_sized _ (kept_packages _ packages)) fun _ _ => rfl
  have hmain : AddsToClass
      (cls.moduleMainClass.map fun name => single "ModuleMainClass" (PoolM.cls name))
      (classUpTo cls 10) (classUpTo cls 11) :=
    adds_look "ModuleMainClass"
      (fun found => ({ classUpTo cls 10 with moduleMainClass := found }, none))
      (fun found hfound => (puts_cls (h.moduleMainClass found hfound)).mono fun _ _ h => h.2)
      fun _ _ => rfl
  have hhost : AddsToClass (cls.nestHost.map fun name => single "NestHost" (PoolM.cls name))
      (classUpTo cls 11) (classUpTo cls 12) :=
    adds_look "NestHost" (fun found => ({ classUpTo cls 11 with nestHost := found }, none))
      (fun found hfound => (puts_cls (h.nestHost found hfound)).mono fun _ _ h => h.2)
      fun _ _ => rfl
  have hmembers : AddsToClass (cls.nestMembers.map (classList "NestMembers"))
      (classUpTo cls 12) (classUpTo cls 13) :=
    adds_once "NestMembers" (fun names => ({ classUpTo cls 12 with nestMembers := names }, none))
      (fun names hnames => carries_classList _ (h.nestMembers names hnames)) fun _ _ => rfl
  have hpermitted : AddsToClass (cls.permittedSubclasses.map (classList "PermittedSubclasses"))
      (classUpTo cls 13) (classUpTo cls 14) :=
    adds_once "PermittedSubclasses"
      (fun names => ({ classUpTo cls 13 with permittedSubclasses := names }, none))
      (fun names hnames => carries_classList _ (h.permittedSubclasses names hnames))
      fun _ _ => rfl
  have hrecord : AddsToClass (cls.recordComponents.map fun components =>
        sized "Record" (listOf "record components" components fun component =>
          (recordComponent component).within (.inComponent component.name)))
      (classUpTo cls 14) (classUpTo cls 15) :=
    adds_once "Record"
      (fun components => ({ classUpTo cls 14 with recordComponents := components }, none))
      (fun components hcomponents => carries_sized _ (kept_listOf _ fun one hone =>
        Puts.within (kept_recordComponent ((h.recordComponents components hcomponents).2 one hone)) _))
      fun _ _ => rfl
  exact .cons hmodule (.cons hpackages (.cons hmain (.cons hhost (.cons hmembers
    (.cons hpermitted (.cons hrecord (.nil _)))))))

/-- **The attributes of a class lead from the bare class to all but its members.** -/
theorem addsAll_class (h : KeptClass cls) :
    AddsAll classStep (classAttributes cls) (classUpTo cls 0, none)
      ({ cls with fields := [], methods := [] }, none) := by
  have hannots : AddsAll classStep (annotAttributes cls.annots)
      (classUpTo cls 7, none) (classUpTo cls 8, none) := bears_class.addsAll h.annots rfl
  have hraw := addsAll_raw h.attributes (classUpTo cls 15, none)
  rw [foldl_addToClass] at hraw
  exact .append (.append (.append (addsAll_front h) hannots) (addsAll_back h)) hraw

end Writing

end Encode

end Downlevel
