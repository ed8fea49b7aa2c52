import Downlevel.Jar.Convert
import Downlevel.Proofs.Archive.Writer
import Downlevel.Proofs.Services

/-!
# What becomes of the entries of a jar

A converted jar begins with the manifest.  Then come the files of the jar in their order, under
their names, copied or converted, and at last the listings of services, if the target knows nothing
of modules.  Before that the description of the module and the listings in the jar are taken out,
and what they say goes into the listings that are written.  Directories are written where they are
first needed.

* `Jar.isCarried`, `Jar.Carried` — which files are taken over, and what they come out as;
* `Jar.Draft.addMembers_fills` — what going through the members of a jar does;
* `Jar.convert_entries` — all entries of a converted jar, and where they come from.
-/

namespace Downlevel

namespace ArchiveMember

variable {member : ArchiveMember}

/-- A loaded member is an entry of its name with what it holds. -/
theorem load_eq_ok {entry : ArchiveEntry} (h : member.load = .ok entry) :
    member.read = .ok entry.content ∧ entry.name = member.name := by
  unfold load at h
  cases hread : member.read with
  | error error => simp [hread, Except.map] at h
  | ok content =>
      rw [hread] at h
      cases h
      exact ⟨rfl, rfl⟩

/-- A member that holds nothing is a directory. -/
theorem content_of_read_none (h : member.read = .ok none) : member.content = none := by
  unfold read at h
  cases hcontent : member.content with
  | none => rfl
  | some content =>
      rw [hcontent] at h
      cases hget : content.get <;> simp [hget, Except.map] at h

/-- A member that holds something is a file. -/
theorem content_of_read_some {bytes : Bytes} (h : member.read = .ok (some bytes)) :
    member.content.isSome = true := by
  unfold read at h
  cases hcontent : member.content with
  | none => simp [hcontent] at h
  | some content => rfl

end ArchiveMember

namespace Jar

/-- Whether a file is taken over into the converted jar.  The manifest is written anew, and for a
release without modules the description of the module and the listings of services are taken
out. -/
def isCarried (converter : Converter) (member : ArchiveMember) : Bool :=
  member.content.isSome && member.name != manifestName &&
    !(decide (converter.target.number < firstWithModules) &&
      (member.name = moduleInfoName || (Services.serviceOf? member.name).isSome))

/-- What a file comes out as: a file of the same name, with the same bytes or, if it is a class that
is newer than the target, with what the converter makes of them. -/
inductive Carried (converter : Converter) (supers : SuperClasses Session) (member : ArchiveMember) :
    String × Bytes → Prop where
  | copied {bytes : Bytes} (read : member.read = .ok (some bytes))
      (other : Draft.isClass member.name = false) : Carried converter supers member (member.name, bytes)
  | unchanged {bytes : Bytes} {session session' : Session} (read : member.read = .ok (some bytes))
      (isClass : Draft.isClass member.name = true)
      (run : converter.convertBytes supers bytes session = (.ok .unchanged, session')) :
      Carried converter supers member (member.name, bytes)
  | renewed {bytes converted : Bytes} {passed : Bool} {session session' : Session}
      (read : member.read = .ok (some bytes)) (isClass : Draft.isClass member.name = true)
      (run : converter.convertBytes supers bytes session =
        (.ok (.renewed converted passed), session'))
      (newer : ∀ version, Version.ofBytes bytes = .ok version →
        converter.target.version.major < version.major) :
      Carried converter supers member (member.name, converted)

/-- A jar has a listing of a service. -/
def HasListing (jar : List ArchiveMember) (service : String) : Prop :=
  ∃ member ∈ jar, member.content.isSome ∧ Services.serviceOf? member.name = some service

/-- A jar lists a provider of a service: on a line of a listing, without the blanks around it. -/
def ListsProvider (jar : List ArchiveMember) (service provider : String) : Prop :=
  ∃ member ∈ jar, ∃ bytes text, Services.serviceOf? member.name = some service ∧
    member.read = .ok (some bytes) ∧ Draft.listingText member.name bytes = .ok text ∧
    provider ∈ Services.listed text

/-- The module of a jar provides a service. -/
def ModuleProvides (jar : List ArchiveMember) (service provider : String) : Prop :=
  ∃ bytes cls info, ArchiveMember.readFrom jar moduleInfoName = .ok (some bytes) ∧
    ClassFile.ofBytes bytes = .ok cls ∧ cls.moduleInfo = some info ∧
    ∃ provided ∈ info.provided, ∃ name ∈ provided.providers,
      service = provided.service.binary ∧ provider = name.binary

/-- The listings of the services of a jar, with and without a description of its module. -/
structure Listings (jar : List ArchiveMember) (listings : List (String × List String)) : Prop where
  sorted : Services.Sorted listings
  lists : ∀ service, Services.Lists listings service ↔
    HasListing jar service ∨ ∃ provider, ModuleProvides jar service provider
  provides : ∀ service provider, Services.Provides listings service provider ↔
    ListsProvider jar service provider ∨ ModuleProvides jar service provider

/-- A class that is written anew is newer than the target. -/
theorem newer_of_renewed {converter : Converter} {supers : SuperClasses Session}
    {bytes converted : Bytes} {passed : Bool} {session session' : Session}
    (h : converter.convertBytes supers bytes session = (.ok (.renewed converted passed), session')) :
    ∀ version, Version.ofBytes bytes = .ok version →
      converter.target.version.major < version.major := by
  intro version hversion
  unfold Converter.convertBytes at h
  obtain ⟨found, _, hlift, h⟩ := task_bind_eq_ok.mp h
  obtain ⟨hfound, rfl⟩ := task_lift_eq_ok.mp hlift
  obtain rfl : found = version := Except.ok.inj (hfound.symm.trans hversion)
  obtain ⟨stages, _, hlift', h⟩ := task_bind_eq_ok.mp h
  obtain ⟨hstages, rfl⟩ := task_lift_eq_ok.mp hlift'
  by_contra hold
  rw [Release.stagesFrom, if_pos (by simpa using hold)] at hstages
  obtain rfl := pure_eq_ok.mp hstages
  simp at h

namespace Draft

/-- Going through some members adds their listings to those that were there. -/
structure Gathers (members : List ArchiveMember) (before after : Services) : Prop where
  sorted : Services.Sorted before.providers → Services.Sorted after.providers
  lists : ∀ service, Services.Lists after.providers service ↔
    Services.Lists before.providers service ∨ HasListing members service
  provides : ∀ service provider, Services.Provides after.providers service provider ↔
    Services.Provides before.providers service provider ∨ ListsProvider members service provider

/-- Listings are gathered either not at all or all the time. -/
inductive Gathered (members : List ArchiveMember) : Option Services → Option Services → Prop where
  | off : Gathered members none none
  | on {before after : Services} (h : Gathers members before after) :
      Gathered members (some before) (some after)

/-- Going through some members writes the files among them that are taken over, adds the directories
among them, and gathers the listings if listings are gathered. -/
structure Fills (converter : Converter) (supers : SuperClasses Session)
    (members : List ArchiveMember) (before after : Draft) (carried : List (String × Bytes)) :
    Prop where
  adds : before.writer.Adds after.writer carried
  carries : List.Forall₂ (Carried converter supers) (members.filter (isCarried converter)) carried
  directories : ∀ member ∈ members, member.content = none → member.name ≠ manifestName →
    ∀ path, String.ofList (ArchiveWriter.trimSlashes member.name.toList) = path → path ≠ "" →
      path ∈ after.writer.directories
  gathers : Gathered members before.services after.services

variable {converter : Converter} {supers : SuperClasses Session} {member : ArchiveMember}
  {members : List ArchiveMember} {draft draft' : Draft} {session session' : Session}

/-- A file is written as what it comes out as. -/
theorem addFile_cases {bytes : Bytes} (hread : member.read = .ok (some bytes))
    (h : draft.addFile converter supers member.name bytes session = (.ok draft', session')) :
    ∃ written, Carried converter supers member (member.name, written) ∧
      draft.writer.writeFile member.name written = .ok draft'.writer ∧
      draft'.services = draft.services := by
  unfold addFile at h
  split at h
  next hclass =>
    obtain ⟨converted, between, hrun, h⟩ := task_bind_eq_ok.mp h
    rw [task_within_eq_ok] at hrun
    cases converted with
    | unchanged =>
        obtain ⟨hwrite, -⟩ := task_lift_eq_ok.mp h
        obtain ⟨writer, hwriter, hdraft⟩ := bind_eq_ok.mp hwrite
        obtain rfl := pure_eq_ok.mp hdraft
        exact ⟨bytes, .unchanged hread hclass hrun, hwriter, rfl⟩
    | renewed converted passed =>
        obtain ⟨hwrite, -⟩ := task_lift_eq_ok.mp h
        obtain ⟨writer, hwriter, hdraft⟩ := bind_eq_ok.mp hwrite
        obtain rfl := pure_eq_ok.mp hdraft
        exact ⟨converted, .renewed hread hclass hrun (newer_of_renewed hrun), hwriter, rfl⟩
  next hother =>
    obtain ⟨hwrite, -⟩ := task_lift_eq_ok.mp h
    obtain ⟨writer, hwriter, hdraft⟩ := bind_eq_ok.mp hwrite
    obtain rfl := pure_eq_ok.mp hdraft
    exact ⟨bytes, .copied hread (by simpa using hother), hwriter, rfl⟩

/-- What can become of a member: nothing, if it is the manifest; an added directory; nothing or an
added listing, if listings are gathered; or a file that is written. -/
theorem addMember_cases
    (h : draft.addMember converter supers member session = (.ok draft', session')) :
    (member.name = manifestName ∧ draft' = draft) ∨
    (member.name ≠ manifestName ∧ member.content = none ∧ ∃ writer,
      draft.writer.addDirectory member.name = .ok writer ∧
        draft' = { draft with writer := writer }) ∨
    (member.name ≠ manifestName ∧ ∃ bytes, member.read = .ok (some bytes) ∧
      ((∃ services, draft.services = some services ∧ member.name = moduleInfoName ∧
          draft' = draft) ∨
        (∃ services service text, draft.services = some services ∧
          Services.serviceOf? member.name = some service ∧
          listingText member.name bytes = .ok text ∧
          draft' = { draft with services := some (services.addListing service text) }) ∨
        ((draft.services = none ∨
            member.name ≠ moduleInfoName ∧ Services.serviceOf? member.name = none) ∧
          draft.addFile converter supers member.name bytes session = (.ok draft', session')))) := by
  unfold addMember at h
  split at h
  next hmanifest =>
    obtain ⟨rfl, -⟩ := task_pure_eq_ok.mp h
    exact .inl ⟨hmanifest, rfl⟩
  next hmanifest =>
    refine .inr ?_
    obtain ⟨entry, _, hlift, h⟩ := task_bind_eq_ok.mp h
    obtain ⟨hload, rfl⟩ := task_lift_eq_ok.mp hlift
    obtain ⟨hread, hname⟩ := ArchiveMember.load_eq_ok (within_eq_ok.mp hload)
    obtain ⟨name, content⟩ := entry
    obtain rfl : name = member.name := hname
    unfold addEntry at h
    cases content with
    | none =>
        obtain ⟨writer, _, hlift', h⟩ := task_bind_eq_ok.mp h
        obtain ⟨hwriter, rfl⟩ := task_lift_eq_ok.mp hlift'
        obtain ⟨rfl, -⟩ := task_pure_eq_ok.mp h
        exact .inl ⟨hmanifest, ArchiveMember.content_of_read_none hread, writer, hwriter, rfl⟩
    | some bytes =>
        refine .inr ⟨hmanifest, bytes, hread, ?_⟩
        cases hservices : draft.services with
        | none =>
            rw [hservices] at h
            exact .inr (.inr ⟨.inl rfl, h⟩)
        | some services =>
            rw [hservices] at h
            dsimp only at h
            split at h
            next hmodule =>
              obtain ⟨rfl, -⟩ := task_pure_eq_ok.mp h
              exact .inl ⟨services, rfl, hmodule, rfl⟩
            next hmodule =>
              cases hservice : Services.serviceOf? member.name with
              | some service =>
                  rw [hservice] at h
                  obtain ⟨text, _, hlift', h⟩ := task_bind_eq_ok.mp h
                  obtain ⟨htext, rfl⟩ := task_lift_eq_ok.mp hlift'
                  obtain ⟨rfl, -⟩ := task_pure_eq_ok.mp h
                  exact .inr (.inl ⟨services, service, text, rfl, rfl, htext, rfl⟩)
              | none =>
                  rw [hservice] at h
                  exact .inr (.inr ⟨.inr ⟨hmodule, rfl⟩, h⟩)

namespace Gathered

variable {before between after : Option Services} {others : List ArchiveMember}

/-- Members without listings leave the listings as they are. -/
theorem same (services : Option Services)
    (h : services.isSome → ∀ member ∈ members, member.content.isSome →
      Services.serviceOf? member.name = none) :
    Gathered members services services := by
  cases services with
  | none => exact .off
  | some services =>
      have hnone : ∀ service, ¬ HasListing members service := by
        rintro service ⟨member, hmember, hcontent, hservice⟩
        simp [h rfl member hmember hcontent] at hservice
      have hnothing : ∀ service provider, ¬ ListsProvider members service provider := by
        rintro service provider ⟨member, hmember, bytes, text, hservice, hread, -⟩
        exact hnone service
          ⟨member, hmember, ArchiveMember.content_of_read_some hread, hservice⟩
      exact .on ⟨fun hsorted => hsorted, fun service => by simp [hnone],
        fun service provider => by simp [hnothing]⟩

/-- Nobody starts to gather listings on the way, or stops. -/
theorem isSome_eq (h : Gathered members before after) : after.isSome = before.isSome := by
  cases h <;> rfl

/-- Gathering from some members and then from others. -/
theorem trans (hfirst : Gathered members before between)
    (hsecond : Gathered others between after) : Gathered (members ++ others) before after := by
  cases hfirst with
  | off =>
      cases hsecond with
      | off => exact .off
  | on hfirst =>
      cases hsecond with
      | on hsecond =>
          refine .on ⟨fun hsorted => hsecond.sorted (hfirst.sorted hsorted), fun service => ?_,
            fun service provider => ?_⟩
          · simp [hsecond.lists, hfirst.lists, HasListing, or_and_right, exists_or, or_assoc]
          · simp [hsecond.provides, hfirst.provides, ListsProvider, or_and_right, exists_or,
              or_assoc]

/-- Gathering from a listing. -/
theorem listing {services : Services} {service text : String} {bytes : Bytes}
    (hread : member.read = .ok (some bytes))
    (hservice : Services.serviceOf? member.name = some service)
    (htext : listingText member.name bytes = .ok text) :
    Gathered [member] (some services) (some (services.addListing service text)) := by
  refine .on ⟨fun hsorted => Services.sorted_addTo hsorted, fun other => ?_, fun other provider => ?_⟩
  · have hcontent := ArchiveMember.content_of_read_some hread
    have hiff : HasListing [member] other ↔ service = other := by
      simp [HasListing, hcontent, hservice]
    rw [Services.addListing, Services.lists_addTo, hiff, or_comm, eq_comm (a := other)]
  · have hiff : ListsProvider [member] other provider ↔
        other = service ∧ provider ∈ Services.listed text := by
      simp [ListsProvider, hservice, hread, htext, eq_comm]
    simp [Services.addListing, Services.provides_addTo, hiff, or_comm]

end Gathered

/-- Going through some members and then through others. -/
theorem Fills.trans {others : List ArchiveMember} {before between after : Draft}
    {carried more : List (String × Bytes)}
    (hfirst : Fills converter supers members before between carried)
    (hsecond : Fills converter supers others between after more) :
    Fills converter supers (members ++ others) before after (carried ++ more) where
  adds := hfirst.adds.trans hsecond.adds
  carries := by
    rw [List.filter_append]
    exact List.rel_append hfirst.carries hsecond.carries
  directories member hmember hcontent hname path hpath hne := by
    rcases List.mem_append.mp hmember with hin | hin
    · exact hsecond.adds.keeps path (hfirst.directories member hin hcontent hname path hpath hne)
    · exact hsecond.directories member hin hcontent hname path hpath hne
  gathers := hfirst.gathers.trans hsecond.gathers

/-- Listings are gathered exactly for targets without modules. -/
def Suits (draft : Draft) (converter : Converter) : Prop :=
  draft.services.isSome = decide (converter.target.number < firstWithModules)

/-- Going through one member. -/
theorem addMember_fills (hsound : draft.writer.Sound) (hsuits : draft.Suits converter)
    (h : draft.addMember converter supers member session = (.ok draft', session')) :
    ∃ carried, Fills converter supers [member] draft draft' carried := by
  have hnoService : Services.serviceOf? manifestName = none := by decide
  have hnoService' : Services.serviceOf? moduleInfoName = none := by decide
  obtain ⟨hname, rfl⟩ | ⟨hname, hcontent, writer, hwriter, rfl⟩ | ⟨hname, bytes, hread, hfile⟩ :=
    addMember_cases h
  · refine ⟨[], .refl hsound, by simp [isCarried, hname], by simp [hname], .same _ ?_⟩
    simp [hname, hnoService]
  · obtain ⟨hadds, hdirectory⟩ := ArchiveWriter.addDirectory_adds hsound hwriter
    refine ⟨[], hadds, by simp [isCarried, hcontent], ?_, .same _ (by simp [hcontent])⟩
    simpa using fun _ _ => hdirectory
  · have hcontent := ArchiveMember.content_of_read_some hread
    have hnoDirectory : ¬ member.content = none := by
      intro hnone
      simp [hnone] at hcontent
    obtain ⟨services, hservices, hmodule, rfl⟩ |
      ⟨services, service, text, hservices, hservice, htext, rfl⟩ | ⟨hkept, hadd⟩ := hfile
    · have hmodules : converter.target.number < firstWithModules := by
        simpa [Suits, hservices] using hsuits
      refine ⟨[], .refl hsound, by simp [isCarried, hmodule, hmodules], by simp [hnoDirectory],
        .same _ ?_⟩
      simp [hmodule, hnoService']
    · have hmodules : converter.target.number < firstWithModules := by
        simpa [Suits, hservices] using hsuits
      refine ⟨[], .refl hsound, by simp [isCarried, hservice, hmodules], by simp [hnoDirectory], ?_⟩
      rw [hservices]
      exact .listing hread hservice htext
    · obtain ⟨written, hcarried, hwriter, hservices⟩ := addFile_cases hread hadd
      have hkeeps : isCarried converter member = true := by
        rcases hkept with hnone | ⟨hmodule, hservice⟩
        · have hmodules : ¬ converter.target.number < firstWithModules := by
            simpa [Suits, hnone] using hsuits
          simp [isCarried, hcontent, hname, hmodules]
        · simp [isCarried, hcontent, hname, hmodule, hservice]
      refine ⟨[(member.name, written)], ArchiveWriter.writeFile_adds hsound hwriter, ?_,
        by simp [hnoDirectory], ?_⟩
      · simpa [hkeeps] using hcarried
      · rw [hservices]
        refine .same _ ?_
        rcases hkept with hnone | ⟨_, hservice⟩
        · simp [hnone]
        · simp [hservice]

/-- **Going through the members of a jar**, one after the other. -/
theorem addMembers_fills (hsound : draft.writer.Sound) (hsuits : draft.Suits converter)
    (h : addMembers converter supers members draft session = (.ok draft', session')) :
    ∃ carried, Fills converter supers members draft draft' carried := by
  induction members generalizing draft session with
  | nil =>
      obtain ⟨rfl, -⟩ := task_pure_eq_ok.mp h
      exact ⟨[], .refl hsound, .nil, by simp, .same _ (by simp)⟩
  | cons member rest ih =>
      obtain ⟨between, session'', hfirst, hrest⟩ := task_bind_eq_ok.mp h
      obtain ⟨carried, hfills⟩ := addMember_fills hsound hsuits hfirst
      have hsuits' : between.Suits converter := hfills.gathers.isSome_eq.trans hsuits
      obtain ⟨others, hothers⟩ := ih hfills.adds.sound hsuits' hrest
      exact ⟨carried ++ others, hfills.trans hothers⟩

/-- Writing files with texts writes them in their order. -/
theorem writeTexts_adds {texts : List (String × String)} (hsound : draft.writer.Sound)
    (h : writeTexts texts draft = .ok draft') :
    draft.writer.Adds draft'.writer (texts.map fun text => (text.1, Utf8.encode text.2)) := by
  induction texts generalizing draft with
  | nil =>
      obtain rfl := Except.ok.inj h
      exact .refl hsound
  | cons text rest ih =>
      obtain ⟨between, hfirst, hrest⟩ := bind_eq_ok.mp h
      obtain ⟨writer, hwriter, hbetween⟩ := bind_eq_ok.mp hfirst
      obtain rfl := pure_eq_ok.mp hbetween
      have hwritten := ArchiveWriter.writeFile_adds hsound hwriter
      exact hwritten.trans (ih hwritten.sound hrest)

end Draft

/-- The services of a module are those that it provides. -/
theorem servicesOf_spec (info : ModuleInfo) :
    Services.Sorted (servicesOf info).providers ∧
      (∀ service, Services.Lists (servicesOf info).providers service ↔
        ∃ provider, Services.Provides (servicesOf info).providers service provider) ∧
      ∀ service provider, Services.Provides (servicesOf info).providers service provider ↔
        ∃ provided ∈ info.provided, ∃ name ∈ provided.providers,
          service = provided.service.binary ∧ provider = name.binary := by
  have hflat : servicesOf info = (info.provided.flatMap fun provided =>
      provided.providers.map fun name => (provided.service.binary, name.binary)).foldl
        (fun services pair => services.add pair.1 pair.2) {} := by
    simp only [servicesOf, List.foldl_flatMap, List.foldl_map]
  obtain ⟨hsorted, hlists, hprovides⟩ := Services.addAll_spec (info.provided.flatMap
    fun provided => provided.providers.map fun name => (provided.service.binary, name.binary)) {}
  rw [← hflat] at hsorted hlists hprovides
  have hempty : ∀ service, ¬ Services.Lists [] service := by simp [Services.Lists]
  have hempty' : ∀ service provider, ¬ Services.Provides [] service provider := by
    simp [Services.Provides]
  refine ⟨hsorted ⟨.nil, by simp⟩, fun service => ?_, fun service provider => ?_⟩
  · simp [hlists, hprovides, hempty, hempty']
  · simp [hprovides, hempty', eq_comm]

/-- The services of a jar without the description of its module are those that the module
provides. -/
theorem withoutModule_spec {jar : List ArchiveMember} {manifest manifest' : Manifest}
    {services : Services} {session session' : Session}
    (h : withoutModule jar manifest session = (.ok (manifest', services), session')) :
    Services.Sorted services.providers ∧
      (∀ service, Services.Lists services.providers service ↔
        ∃ provider, ModuleProvides jar service provider) ∧
      ∀ service provider, Services.Provides services.providers service provider ↔
        ModuleProvides jar service provider := by
  unfold withoutModule at h
  obtain ⟨content, _, hlift, h⟩ := task_bind_eq_ok.mp h
  obtain ⟨hread, rfl⟩ := task_lift_eq_ok.mp hlift
  cases content with
  | none =>
      obtain ⟨hvalue, -⟩ := task_pure_eq_ok.mp h
      cases hvalue
      have hnone : ∀ service provider, ¬ ModuleProvides jar service provider := by
        rintro service provider ⟨bytes, cls, info, hbytes, -⟩
        rw [hread] at hbytes
        cases hbytes
      exact ⟨⟨.nil, by simp⟩, by simp [Services.Lists, hnone], by simp [Services.Provides, hnone]⟩
  | some bytes =>
      rw [task_within_eq_ok] at h
      obtain ⟨cls, _, hlift', h⟩ := task_bind_eq_ok.mp h
      obtain ⟨hcls, rfl⟩ := task_lift_eq_ok.mp hlift'
      cases hinfo : cls.moduleInfo with
      | none =>
          rw [hinfo] at h
          simp at h
      | some info =>
          rw [hinfo] at h
          obtain ⟨_, _, -, h⟩ := task_bind_eq_ok.mp h
          obtain ⟨hvalue, -⟩ := task_pure_eq_ok.mp h
          cases hvalue
          obtain ⟨hsorted, hlists, hprovides⟩ := servicesOf_spec info
          have hmodule : ∀ service provider, ModuleProvides jar service provider ↔
              Services.Provides (servicesOf info).providers service provider := by
            intro service provider
            simp [ModuleProvides, hread, hcls, hinfo, hprovides]
          exact ⟨hsorted, by simp [hlists, hmodule], by simp [hmodule]⟩

/-- The file with the listing of a service: a line for each provider. -/
def listingFile (listing : String × List String) : String × Bytes :=
  (Services.directory ++ listing.1,
    Utf8.encode (String.join (listing.2.map fun provider => provider ++ "\n")))

variable {converter : Converter} {supers : SuperClasses Session} {jar : List ArchiveMember}
  {manifest : Manifest} {session session' : Session} {archive : Archive} {passed : Bool}

/-- What is done once the manifest and the services of a module are known: the manifest is written,
then the members are gone through, and then the listings are written. -/
theorem fill_iff {header : Manifest} {services : Option Services} :
    (do
      let started ← ((Draft.mk {} services true).write manifestName header.toBytes :
        Except Error Draft)
      let filled ← Draft.addMembers converter supers jar started
      let finished ← (filled.writeServices : Except Error Draft)
      return (finished.writer.finish, finished.passed) : Task Session (Archive × Bool)) session =
        (.ok (archive, passed), session') ↔
    ∃ started filled finished,
      (Draft.mk {} services true).write manifestName header.toBytes = .ok started ∧
        Draft.addMembers converter supers jar started session = (.ok filled, session') ∧
        filled.writeServices = .ok finished ∧ finished.writer.finish = archive ∧
        finished.passed = passed := by
  simp only [task_bind_eq_ok, task_lift_eq_ok, task_pure_eq_ok, Prod.mk.injEq]
  constructor
  · rintro ⟨started, _, ⟨hstarted, rfl⟩, filled, _, hfilled, finished, _, ⟨hfinished, rfl⟩,
      ⟨harchive, hpassed⟩, rfl⟩
    exact ⟨started, filled, finished, hstarted, hfilled, hfinished, harchive, hpassed⟩
  · rintro ⟨started, filled, finished, hstarted, hfilled, hfinished, harchive, hpassed⟩
    exact ⟨started, _, ⟨hstarted, rfl⟩, filled, _, hfilled, finished, _, ⟨hfinished, rfl⟩,
      ⟨harchive, hpassed⟩, rfl⟩

/-- A conversion for a target with modules. -/
theorem convert_above (hmodules : ¬ converter.target.number < firstWithModules) :
    convert converter supers jar manifest session = (.ok (archive, passed), session') ↔
      ∃ started filled finished,
        (Draft.mk {} none true).write manifestName manifest.toBytes = .ok started ∧
          Draft.addMembers converter supers jar started session = (.ok filled, session') ∧
          filled.writeServices = .ok finished ∧ finished.writer.finish = archive ∧
          finished.passed = passed := by
  rw [convert, if_neg hmodules]
  exact fill_iff

/-- A conversion for a target without modules.  The description of the module is looked at first. -/
theorem convert_below (hmodules : converter.target.number < firstWithModules) :
    convert converter supers jar manifest session = (.ok (archive, passed), session') ↔
      ∃ header services between,
        withoutModule jar manifest session = (.ok (header, services), between) ∧
        ∃ started filled finished,
          (Draft.mk {} (some services) true).write manifestName header.toBytes = .ok started ∧
            Draft.addMembers converter supers jar started between = (.ok filled, session') ∧
            filled.writeServices = .ok finished ∧ finished.writer.finish = archive ∧
            finished.passed = passed := by
  rw [convert, if_pos hmodules, task_bind_eq_ok]
  constructor
  · rintro ⟨⟨header, services⟩, between, hwithout, h⟩
    exact ⟨header, services, between, hwithout, fill_iff.mp h⟩
  · rintro ⟨header, services, between, hwithout, h⟩
    exact ⟨(header, services), between, hwithout, fill_iff.mpr h⟩

/-- The steps of a conversion.  Services are gathered, beginning with those of the module, exactly
if the target knows nothing of modules. -/
theorem convert_steps
    (h : convert converter supers jar manifest session = (.ok (archive, passed), session')) :
    ∃ (header : Manifest) (services : Option Services) (started filled finished : Draft)
      (between : Session),
      services.isSome = decide (converter.target.number < firstWithModules) ∧
      (∀ known, services = some known →
        withoutModule jar manifest session = (.ok (header, known), between)) ∧
      (Draft.mk {} services true).write manifestName header.toBytes = .ok started ∧
      Draft.addMembers converter supers jar started between = (.ok filled, session') ∧
      filled.writeServices = .ok finished ∧ finished.writer.finish = archive := by
  by_cases hmodules : converter.target.number < firstWithModules
  · obtain ⟨header, services, between, hwithout, started, filled, finished, hstarted, hfilled,
      hfinished, harchive, -⟩ := (convert_below hmodules).mp h
    refine ⟨header, some services, started, filled, finished, between, by simp [hmodules], ?_,
      hstarted, hfilled, hfinished, harchive⟩
    rintro _ ⟨⟩
    exact hwithout
  · obtain ⟨started, filled, finished, hstarted, hfilled, hfinished, harchive, -⟩ :=
      (convert_above hmodules).mp h
    exact ⟨manifest, none, started, filled, finished, session, by simp [hmodules], by simp,
      hstarted, hfilled, hfinished, harchive⟩

/-- Writing the listings writes a file for each of them. -/
theorem Draft.writeServices_adds {filled finished : Draft} (hsound : filled.writer.Sound)
    (h : filled.writeServices = .ok finished) :
    filled.writer.Adds finished.writer
      (((filled.services.map Services.providers).getD []).map listingFile) := by
  unfold Draft.writeServices at h
  cases hservices : filled.services with
  | none =>
      rw [hservices] at h
      obtain rfl := Except.ok.inj h
      exact .refl hsound
  | some services =>
      rw [hservices] at h
      have hadds := Draft.writeTexts_adds hsound h
      rw [Services.files, List.map_map] at hadds
      exact hadds

/-- The services that are gathered from a jar, beginning with those of its module, make up its
listings. -/
theorem gathered_listings {header : Manifest} {services gathered : Option Services}
    {between : Session}
    (hmode : services.isSome = decide (converter.target.number < firstWithModules))
    (hmodule : ∀ known, services = some known →
      withoutModule jar manifest session = (.ok (header, known), between))
    (hgathers : Draft.Gathered jar services gathered) :
    if converter.target.number < firstWithModules then
      Listings jar ((gathered.map Services.providers).getD [])
    else (gathered.map Services.providers).getD [] = [] := by
  cases hgathers with
  | off =>
      have hmodules : ¬ converter.target.number < firstWithModules := by simpa using hmode
      rw [if_neg hmodules]
      rfl
  | on hgathers =>
      have hmodules : converter.target.number < firstWithModules := by simpa using hmode
      obtain ⟨hsorted, hlists, hprovides⟩ := withoutModule_spec (hmodule _ rfl)
      rw [if_pos hmodules]
      refine ⟨hgathers.sorted hsorted, fun service => ?_, fun service provider => ?_⟩
      · exact (hgathers.lists service).trans (by rw [hlists, or_comm])
      · exact (hgathers.provides service provider).trans (by rw [hprovides, or_comm])

/-- The first file of what begins with the manifest. -/
theorem first_file {writer after : ArchiveWriter} {header : Manifest} {files : List (String × Bytes)}
    (hstart : ArchiveWriter.Adds {} writer [(manifestName, header.toBytes)])
    (hrest : writer.Adds after files) :
    (after.finish.entries.find? fun entry => entry.content.isSome) =
      some ⟨manifestName, some header.toBytes⟩ := by
  have hname : Archive.isDirectoryName manifestName = false := by decide
  have hmanifest : ArchiveWriter.fileEntry (manifestName, header.toBytes) =
      ⟨manifestName, some header.toBytes⟩ := by
    simp [ArchiveWriter.fileEntry, Archive.entryOf, hname]
  obtain ⟨-, ⟨front, hfront, hfiles, hothers⟩, -⟩ := hstart
  obtain ⟨-, ⟨back, hback, -, -⟩, -⟩ := hrest
  have hentries : writer.finish.entries = front := by
    simpa [ArchiveWriter.finish] using hfront
  rw [List.map_singleton, List.singleton_sublist, hmanifest] at hfiles
  rw [hback, hentries, List.find?_append]
  cases hfound : front.find? fun entry => entry.content.isSome with
  | none => simpa using List.find?_eq_none.mp hfound _ hfiles
  | some entry =>
      have hcontent : entry.content.isSome = true := by simpa using List.find?_some hfound
      rcases hothers entry (List.mem_of_find?_eq_some hfound) with hsame | hnone
      · obtain rfl : entry = _ := by simpa [hmanifest] using hsame
        rfl
      · simp [hnone] at hcontent

/-- What a conversion writes: the manifest, then what becomes of the members, then the listings of
services. -/
theorem convert_fills
    (h : convert converter supers jar manifest session = (.ok (archive, passed), session')) :
    ∃ (header : Manifest) (services : Option Services) (between : Session)
      (writer after : ArchiveWriter) (filled : Draft) (carried : List (String × Bytes)),
      services.isSome = decide (converter.target.number < firstWithModules) ∧
      (∀ known, services = some known →
        withoutModule jar manifest session = (.ok (header, known), between)) ∧
      ArchiveWriter.Adds {} writer [(manifestName, header.toBytes)] ∧
      Draft.Fills converter supers jar ⟨writer, services, true⟩ filled carried ∧
      filled.writer.Adds after
        (((filled.services.map Services.providers).getD []).map listingFile) ∧
      after.finish = archive := by
  obtain ⟨header, services, started, filled, finished, between, hmode, hmodule, hstarted, hfilled,
    hfinished, harchive⟩ := convert_steps h
  obtain ⟨writer, hwriter, hdraft⟩ := bind_eq_ok.mp hstarted
  obtain rfl := pure_eq_ok.mp hdraft
  have hstart := ArchiveWriter.writeFile_adds ArchiveWriter.sound_empty hwriter
  have hsuits : (Draft.mk writer services true).Suits converter := hmode
  obtain ⟨carried, hfills⟩ := Draft.addMembers_fills hstart.sound hsuits hfilled
  have hlistings := Draft.writeServices_adds hfills.adds.sound hfinished
  exact ⟨header, services, between, writer, finished.writer, filled, carried, hmode, hmodule,
    hstart, hfills, hlistings, harchive⟩

/-- **No entry of a jar is lost, duplicated or altered.**  The first file of a converted jar is the
manifest.  Behind it are the files of the jar, in their order and under their names, each as it was
or as the converter makes it; and then, if the target knows nothing of modules, the listings of
services, which say what the jar's listings and the description of its module said.  Besides there
are only directories: all that the jar had, if there is more to their names than slashes, and in
front of each entry those that it is in.  No name occurs twice. -/
theorem convert_keeps_entries
    (h : convert converter supers jar manifest session = (.ok (archive, passed), session')) :
    ∃ (header : Manifest) (carried : List (String × Bytes))
      (listings : List (String × List String)),
      ArchiveWriter.Holds archive
        ((manifestName, header.toBytes) :: (carried ++ listings.map listingFile)) ∧
      (archive.entries.find? fun entry => entry.content.isSome) =
        some ⟨manifestName, some header.toBytes⟩ ∧
      List.Forall₂ (Carried converter supers) (jar.filter (isCarried converter)) carried ∧
      (if converter.target.number < firstWithModules then Listings jar listings
        else listings = []) ∧
      ∀ member ∈ jar, member.content = none → member.name ≠ manifestName →
        ∀ (path : String) (slashes : Nat),
          member.name.toList = path.toList ++ List.replicate slashes '/' → path ≠ "" →
          path.toList.getLast? ≠ some '/' → ⟨Archive.directoryName path, none⟩ ∈ archive.entries := by
  obtain ⟨header, services, between, writer, after, filled, carried, hmode, hmodule, hstart, hfills,
    hlistings, rfl⟩ := convert_fills h
  refine ⟨header, carried, (filled.services.map Services.providers).getD [],
    (hstart.trans (hfills.adds.trans hlistings)).holds,
    first_file hstart (hfills.adds.trans hlistings), hfills.carries, ?_, ?_⟩
  · exact gathered_listings hmode hmodule hfills.gathers
  · intro member hmember hcontent hmanifest path slashes hname hne hlast
    have hpath : String.ofList (ArchiveWriter.trimSlashes member.name.toList) = path := by
      rw [hname, ArchiveWriter.trimSlashes_append_slashes hlast, String.ofList_toList]
    have hdirectory := hfills.directories member hmember hcontent hmanifest path hpath hne
    exact List.mem_reverse.mpr (hlistings.sound.listed path (hlistings.keeps path hdirectory))

/-- A writer that has written a manifest. -/
def manifestOnly (header : Manifest) : ArchiveWriter where
  entries := [⟨manifestName, some header.toBytes⟩, ⟨"META-INF/", none⟩]
  names := Std.HashSet.insert (Std.HashSet.insert ∅ "META-INF/") manifestName
  directories := Std.HashSet.insert ∅ "META-INF"

/-- The manifest is written behind its directory. -/
theorem write_manifest (header : Manifest) (services : Option Services) :
    (Draft.mk {} services true).write manifestName header.toBytes =
      .ok ⟨manifestOnly header, services, true⟩ := by
  have hancestors : ArchiveWriter.ancestors manifestName = ["META-INF"] := by decide
  have hdirectory : Archive.directoryName "META-INF" = "META-INF/" := by decide
  have hfile : Archive.isDirectoryName manifestName = false := by decide
  have hother : "META-INF/" ≠ manifestName := by decide
  simp [Draft.write, ArchiveWriter.writeFile, hancestors, hdirectory, hfile, hother,
    ArchiveWriter.putDirectories, ArchiveWriter.putDirectory, ArchiveWriter.put, bind, Except.bind,
    pure, Except.pure, Archive.entryOf, manifestOnly]

/-- A jar with a file, and with the listing of a service. -/
def smallJar : Archive :=
  ⟨[⟨"x/y", some [0x31]⟩, ⟨"META-INF/services/a.S", some [0x62, 0x2e, 0x54]⟩]⟩

/-- The writer behind the file of the small jar. -/
theorem writeFile_smallJar (bytes : Bytes) :
    ∃ writer, (manifestOnly {}).writeFile "x/y" bytes = .ok writer ∧
      ∀ more, ∃ writer', writer.writeFile "META-INF/services/a.S" more = .ok writer' ∧
        writer'.finish.names =
          ["META-INF/", manifestName, "x/", "x/y", "META-INF/services/", "META-INF/services/a.S"] := by
  have hancestors : ArchiveWriter.ancestors "x/y" = ["x"] := by decide
  have hdirectory : Archive.directoryName "x" = "x/" := by decide
  have hfile : Archive.isDirectoryName "x/y" = false := by decide
  have hancestors' : ArchiveWriter.ancestors "META-INF/services/a.S" =
      ["META-INF", "META-INF/services"] := by decide
  have hdirectory' : Archive.directoryName "META-INF/services" = "META-INF/services/" := by decide
  have hfile' : Archive.isDirectoryName "META-INF/services/a.S" = false := by decide
  simp [ArchiveWriter.writeFile, hancestors, hdirectory, hfile, hancestors', hdirectory', hfile',
    ArchiveWriter.putDirectories, ArchiveWriter.putDirectory, ArchiveWriter.put, bind, Except.bind,
    pure, Except.pure, Archive.entryOf, manifestOnly, manifestName, ArchiveWriter.finish,
    Archive.names]

/-- What is done with a member that is not the manifest. -/
theorem addMember_ofEntry {converter : Converter} {supers : SuperClasses Session} {draft : Draft}
    {entry : ArchiveEntry} {session : Session} (hname : entry.name ≠ manifestName) :
    draft.addMember converter supers (.ofEntry entry) session =
      draft.addEntry converter supers entry session := by
  have hmember : (ArchiveMember.ofEntry entry).name ≠ manifestName := hname
  rw [Draft.addMember, if_neg hmember, ArchiveMember.load_ofEntry]
  rfl

/-- In release 8 the small jar has the same files, and the directories they are in. -/
theorem convert_keeps_entries_smallJar :
    ∃ archive, convert ⟨⟨8, by decide, by decide⟩, none⟩ (.objectOnly _) smallJar.members {} {} =
        (.ok (archive, true), {}) ∧
      archive.names =
        ["META-INF/", manifestName, "x/", "x/y", "META-INF/services/", "META-INF/services/a.S"] ∧
      ∃ header carried listings, ArchiveWriter.Holds archive
          ((manifestName, Manifest.toBytes header) :: (carried ++ listings.map listingFile)) ∧
        Listings smallJar.members listings := by
  obtain ⟨first, hfirst, hsecond⟩ := writeFile_smallJar [0x31]
  obtain ⟨second, hwriter, hnames⟩ := hsecond [0x62, 0x2e, 0x54, 0x0a]
  have hmodule : withoutModule smallJar.members {} {} = (.ok ({}, {}), {}) := by
    refine task_bind_eq_ok.mpr ⟨none, _, task_lift_eq_ok.mpr ⟨?_, rfl⟩, rfl⟩
    rw [Archive.readFrom_members]
    rfl
  have hfile : (Draft.mk (manifestOnly {}) (some {}) true).addMember
      ⟨⟨8, by decide, by decide⟩, none⟩ (.objectOnly _) (.ofEntry ⟨"x/y", some [0x31]⟩) {} =
        (.ok ⟨first, some {}, true⟩, {}) := by
    rw [addMember_ofEntry (by decide)]
    refine task_lift_eq_ok.mpr ⟨bind_eq_ok.mpr ⟨first, hfirst, rfl⟩, rfl⟩
  have hlisting : (Draft.mk first (some {}) true).addMember
      ⟨⟨8, by decide, by decide⟩, none⟩ (.objectOnly _)
      (.ofEntry ⟨"META-INF/services/a.S", some [0x62, 0x2e, 0x54]⟩) {} =
        (.ok ⟨first, some ⟨[("a.S", ["b.T"])]⟩, true⟩, {}) := by
    rw [addMember_ofEntry (by decide)]
    refine task_bind_eq_ok.mpr ⟨"b.T", _, task_lift_eq_ok.mpr ⟨by rfl, rfl⟩, rfl⟩
  have hconvert : convert ⟨⟨8, by decide, by decide⟩, none⟩ (.objectOnly _) smallJar.members {} {} =
      (.ok (second.finish, true), {}) := by
    refine (convert_below (by decide)).mpr ⟨_, _, _, hmodule, _,
      ⟨first, some ⟨[("a.S", ["b.T"])]⟩, true⟩, ⟨second, some ⟨[("a.S", ["b.T"])]⟩, true⟩,
      write_manifest {} _, ?_, ?_, rfl, rfl⟩
    · refine task_bind_eq_ok.mpr ⟨_, _, hfile, ?_⟩
      exact task_bind_eq_ok.mpr ⟨_, _, hlisting, rfl⟩
    · refine bind_eq_ok.mpr ⟨_, bind_eq_ok.mpr ⟨second, hwriter, rfl⟩, rfl⟩
  refine ⟨second.finish, hconvert, hnames, ?_⟩
  obtain ⟨header, carried, listings, hholds, -, -, hlistings, -⟩ := convert_keeps_entries hconvert
  exact ⟨header, carried, listings, hholds, hlistings⟩

/-- A jar with two directories: one that has nothing but a slash for its name, and one with a
backslash in front of the slash. -/
def oddDirectories : Archive :=
  ⟨[⟨"/", none⟩, ⟨"a\\/", none⟩]⟩

/-- The backslash counts as the end of the name of a directory. -/
theorem addDirectory_oddDirectories :
    ∃ writer, (manifestOnly {}).addDirectory "a\\/" = .ok writer ∧
      writer.finish.names = ["META-INF/", manifestName, "a\\"] := by
  have hpath : String.ofList (ArchiveWriter.trimSlashes "a\\/".toList) = "a\\" := by decide
  have hancestors : ArchiveWriter.ancestors "a\\" = [] := by decide
  have hdirectory : Archive.directoryName "a\\" = "a\\" := by decide
  have hother : manifestName ≠ "a\\" := by decide
  rw [ArchiveWriter.addDirectory, hpath, if_neg (by decide), hancestors]
  simp [ArchiveWriter.putDirectories, ArchiveWriter.putDirectory, ArchiveWriter.put, hdirectory,
    manifestOnly, hother, bind, Except.bind, pure, Except.pure, ArchiveWriter.finish, Archive.names]

/-- Of the two directories the first is lost, and the second comes out under another name. -/
theorem convert_loses_oddDirectories :
    ∃ archive passed session',
      convert ⟨⟨11, by decide, by decide⟩, none⟩ (.objectOnly _) oddDirectories.members {} {} =
        (.ok (archive, passed), session') ∧
      archive.names = ["META-INF/", manifestName, "a\\"] ∧
      oddDirectories.names.Nodup ∧ "/" ∉ archive.names ∧ "a\\/" ∉ archive.names := by
  have hroot : (manifestOnly {}).addDirectory "/" = .ok (manifestOnly {}) := rfl
  obtain ⟨writer, hwriter, hnames⟩ := addDirectory_oddDirectories
  have hconvert : convert ⟨⟨11, by decide, by decide⟩, none⟩ (.objectOnly _)
      oddDirectories.members {} {} = (.ok (writer.finish, true), {}) := by
    refine (convert_above (by decide)).mpr ⟨_, ⟨writer, none, true⟩, ⟨writer, none, true⟩,
      write_manifest {} none, ?_, rfl, rfl, rfl⟩
    refine task_bind_eq_ok.mpr ⟨⟨manifestOnly {}, none, true⟩, {}, ?_, ?_⟩
    · rw [addMember_ofEntry (by decide)]
      exact task_bind_eq_ok.mpr ⟨_, _, task_lift_eq_ok.mpr ⟨hroot, rfl⟩, rfl⟩
    · refine task_bind_eq_ok.mpr ⟨⟨writer, none, true⟩, {}, ?_, rfl⟩
      rw [addMember_ofEntry (by decide)]
      exact task_bind_eq_ok.mpr ⟨_, _, task_lift_eq_ok.mpr ⟨hwriter, rfl⟩, rfl⟩
  refine ⟨writer.finish, true, {}, hconvert, hnames, by decide, ?_, ?_⟩
  · rw [hnames]
    decide
  · rw [hnames]
    decide

end Jar

end Downlevel
