import Downlevel.Proofs.Lower.Needed
import Downlevel.Proofs.Lower.Removal

/-!
# The members that a class gains

Lowering adds methods and fields to a class, behind those that it has.  A method that is added for a
call site or for a constant gets the name of that site or constant, with a word in front that tells
what the method is for, and a number behind.  The names of fields are made in the same way.

A pass works on what earlier passes left, where a call site may be bound anew and code may stand in
another method than before.  But none of that gives the class a site or a constant that could lend
its name to a new member and that it did not have from the start: having no others is steady.  So
all that is added on the way down is named after something in the class at the beginning.

* `ClassFile.LendsSite`, `ClassFile.LendsConstant` — the sites and constants that members are named
  after, `Instruction.steady_lendsOnly` — lowering adds none;
* `ClassFile.Gains` — the members that a class has gained;
* `ClassFile.replaceCallSites_ids`, `Constants.dynamicConstants_ids` — the passes that add members;
* `Pass.run_gains`, `Converter.convert_gains` — one pass, and a conversion.
-/

namespace Downlevel

/-! ## What members are named after -/

open Constants (dynamic? instructionsOf)

/-- A dynamic constant, or one among its arguments, that has a name for an accessor: it is not null.
-/
inductive Loadable.Lends : Loadable → FieldName → Prop where
  | here {name : FieldName} {descriptor : FieldDescriptor} {bootstrap : Handle}
      {arguments : List Loadable}
      (hnull : bootstrap.isMethod Constants.nullBootstrap = false) :
      Lends (.dynamic name descriptor bootstrap arguments) name
  | inside {name found : FieldName} {descriptor : FieldDescriptor} {bootstrap : Handle}
      {arguments : List Loadable} {argument : Loadable}
      (hnull : bootstrap.isMethod Constants.nullBootstrap = false) (hmem : argument ∈ arguments)
      (h : Lends argument found) : Lends (.dynamic name descriptor bootstrap arguments) found

/-- A call site that does not stay: it is linked by a bootstrap method whose sites are replaced, or
it has dynamic constants among its arguments, so that it is bound anew. -/
def CallSite.Goes (site : CallSite) : Prop :=
  (∃ linker ∈ Concat.linkers ++ Switch.linkers, site.bootstrap.isStatic linker = true) ∨
    ∃ argument ∈ site.arguments, dynamic? argument ≠ none

/-- An instruction has a call site with a name for a new method. -/
inductive Instruction.LendsSite : Instruction → MethodName → Prop where
  | site {site : CallSite} (h : site.Goes) : LendsSite (.invokedynamic site) site.name

/-- An instruction has a dynamic constant with a name for an accessor. -/
inductive Instruction.LendsConstant : Instruction → FieldName → Prop where
  | loaded {value : Loadable} {name : FieldName} (h : value.Lends name) :
      LendsConstant (.ldc value) name
  | passed {site : CallSite} {argument : Loadable} {name : FieldName}
      (hmem : argument ∈ site.arguments) (h : argument.Lends name) :
      LendsConstant (.invokedynamic site) name

/-- A class has a call site with a name for a new method. -/
def ClassFile.LendsSite (cls : ClassFile) (name : MethodName) : Prop :=
  ∃ instruction ∈ cls.methods.flatMap instructionsOf, instruction.LendsSite name

/-- A class has a dynamic constant with a name for an accessor. -/
def ClassFile.LendsConstant (cls : ClassFile) (name : FieldName) : Prop :=
  ∃ instruction ∈ cls.methods.flatMap instructionsOf, instruction.LendsConstant name

/-- An instruction has no names for members but those that a class has. -/
structure Instruction.LendsOnly (cls : ClassFile) (instruction : Instruction) : Prop where
  sites : ∀ name, instruction.LendsSite name → cls.LendsSite name
  constants : ∀ name, instruction.LendsConstant name → cls.LendsConstant name

open Instruction

/-- A value that is no dynamic constant has no names for accessors. -/
theorem Loadable.Lends.dynamic {value : Loadable} {name : FieldName} (h : value.Lends name) :
    dynamic? value ≠ none := by
  cases h <;> exact Option.some_ne_none _

/-- What holds of all instructions of a class holds of each one. -/
theorem ClassFile.all_iff {P : Instruction → Prop} {cls : ClassFile} :
    cls.All P ↔ ∀ instruction ∈ cls.methods.flatMap instructionsOf, P instruction := by
  constructor
  · intro h instruction hmem
    obtain ⟨method, hmethod, hin⟩ := List.mem_flatMap.mp hmem
    unfold instructionsOf at hin
    split at hin
    next => cases hin
    next code hcode =>
      obtain ⟨entry, hentry, rfl⟩ := List.mem_map.mp hin
      exact h method hmethod code hcode entry hentry
  · intro h method hmethod code hcode entry hentry
    refine h _ (List.mem_flatMap.mpr ⟨method, hmethod, ?_⟩)
    unfold instructionsOf
    rw [hcode]
    exact List.mem_map_of_mem hentry

/-- A class has no names for members but its own. -/
theorem ClassFile.all_lendsOnly (cls : ClassFile) : cls.All (LendsOnly cls) :=
  all_iff.mpr fun instruction hmem =>
    ⟨fun _ hname => ⟨instruction, hmem, hname⟩, fun _ hname => ⟨instruction, hmem, hname⟩⟩

/-- **Having no other names for members is steady.** -/
theorem Instruction.steady_lendsOnly (cls : ClassFile) : Steady (LendsOnly cls) where
  direct instruction hdirect := by
    constructor
    · rintro _ ⟨-⟩
      cases hdirect
    · intro name hname
      cases hname with
      | loaded h => exact absurd hdirect h.dynamic
      | passed => cases hdirect
  bounced owner site number := by
    constructor
    · intro name hname
      cases hname with
      | site hgoes =>
          rcases hgoes with ⟨linker, hlinker, hstatic⟩ | ⟨argument, hmem, -⟩
          · rcases List.mem_append.mp hlinker with hconcat | hswitch
            · cases (Concat.steady.bounced owner site number linker hconcat).symm.trans hstatic
            · cases (Switch.steady.bounced owner site number linker hswitch).symm.trans hstatic
          · cases hmem
    · intro name hname
      cases hname with
      | passed hmem => cases hmem
  argument site hsite argument hmem := by
    constructor
    · rintro _ ⟨⟩
    · intro name hname
      cases hname with
      | loaded h => exact hsite.constants name (.passed hmem h)
  widened site found hsite := by
    constructor
    · intro name hname
      cases hname with
      | site hgoes =>
          rcases hgoes with ⟨linker, -, hstatic⟩ | hargument
          · rw [SymbolTable.isStatic_handleOf] at hstatic
            cases hstatic
          · exact hsite.sites site.name (.site (.inr hargument))
    · intro name hname
      cases hname with
      | passed hmem h => exact hsite.constants name (.passed hmem h)

/-! ## The names of new members -/

/-- What stands in front of the names of call sites in the names of bouncers. -/
def bouncerFront : String := "indyconstant$"

/-- What stands in front of the names of call sites in the names of the methods that a pass makes
for the sites of some bootstrap methods. -/
def replacementFronts (basename : String) (linkers : List MethodRef) : List String :=
  linkers.map fun linker => basename ++ "$" ++ linker.name ++ "$"

/-- What stands in front of the names of call sites in the names of methods. -/
def siteFronts : List String :=
  bouncerFront ::
    (replacementFronts "strconcat" Concat.linkers ++ replacementFronts "switch" Switch.linkers)

/-- What stands in front of the names of constants in the names of accessors. -/
def constantFront : String := "constant$"

/-- What stands in front of the names of constants in the names of fields. -/
def fieldFronts : List String :=
  [constantFront, Constants.flagName constantFront, Constants.lockName constantFront]

/-- A name is another one with something in front and a number behind. -/
def NamedAfter (front source name : String) : Prop :=
  ∃ number : Nat, name = front ++ source ++ "$" ++ toString number

/-- The next name for a member is the one that it is named after, with a number behind. -/
theorem NameSupply.namedAfter_next {supply names : NameSupply} {front source name : String}
    {companions : List String}
    (h : supply.next (front ++ source ++ "$") companions = (name, names)) :
    NamedAfter front source name := by
  obtain ⟨number, hname, -⟩ := next_smallest supply (front ++ source ++ "$") companions
  rw [h] at hname
  exact ⟨number, hname⟩

/-- More in front of a name is more in front of what it is named after. -/
theorem NamedAfter.prepend {front source name : String} (h : NamedAfter front source name)
    (more : String) : NamedAfter (more ++ front) source (more ++ name) := by
  obtain ⟨number, rfl⟩ := h
  exact ⟨number, by simp only [String.append_assoc]⟩

namespace ClassFile

/-- A method is named after something in a class: after a call site or after a constant. -/
inductive NamesMethod (cls : ClassFile) (source : String) (name : MethodName) : Prop where
  | site {front : String} (hfront : front ∈ siteFronts) (hsource : cls.LendsSite source)
      (hname : NamedAfter front source name)
  | constant (hsource : cls.LendsConstant source) (hname : NamedAfter constantFront source name)

/-- The methods that may be added to a class: the one that initializes it, and those that are named
after something in the class. -/
def AddsMethod (cls : ClassFile) (id : MethodId) : Prop :=
  id = Constants.emptyInitializer.id ∨ ∃ source, cls.NamesMethod source id.name

/-- The names of fields that may be added to a class: those after constants in the class. -/
def AddsField (cls : ClassFile) (name : FieldName) : Prop :=
  ∃ front ∈ fieldFronts, ∃ source, cls.LendsConstant source ∧ NamedAfter front source name

/-- The members that a class has gained on the way to another one.  Those that it had come first and
keep their names and descriptors, and the others are such as may be added.  No names are lent from
then on but those that were before. -/
structure Gains (cls cls' : ClassFile) : Prop where
  methods : ∃ added : List Method,
    cls'.methods.map Method.id = cls.methods.map Method.id ++ added.map Method.id ∧
      ∀ method ∈ added, cls.AddsMethod method.id
  fields : ∃ added : List Field,
    cls'.fields.map Field.id = cls.fields.map Field.id ++ added.map Field.id ∧
      ∀ field ∈ added, cls.AddsField field.name
  lends : cls'.All (LendsOnly cls)

/-- What may be lent a name in a class that has no other names than another one may be lent it
there. -/
theorem lends_of_all {cls cls' : ClassFile} (h : cls'.All (LendsOnly cls)) :
    (∀ name, cls'.LendsSite name → cls.LendsSite name) ∧
      ∀ name, cls'.LendsConstant name → cls.LendsConstant name := by
  have hall := all_iff.mp h
  constructor
  · rintro name ⟨instruction, hmem, hlends⟩
    exact (hall instruction hmem).sites name hlends
  · rintro name ⟨instruction, hmem, hlends⟩
    exact (hall instruction hmem).constants name hlends

namespace Gains

variable {a b c cls cls' : ClassFile}

/-- A class in which the names and descriptors of members stay has gained none. -/
theorem of_sameIds (h : cls.SameIds cls') (hlends : cls'.All (LendsOnly cls)) : cls.Gains cls' :=
  ⟨⟨[], by rw [h.methods, List.map_nil, List.append_nil], List.forall_mem_nil _⟩,
    ⟨[], by rw [h.fields, List.map_nil, List.append_nil], List.forall_mem_nil _⟩, hlends⟩

/-- A class has gained nothing on the way to itself. -/
theorem refl (cls : ClassFile) : cls.Gains cls :=
  of_sameIds ⟨rfl, rfl⟩ cls.all_lendsOnly

/-- What was gained first and what was gained then. -/
theorem trans (h : a.Gains b) (h' : b.Gains c) : a.Gains c := by
  obtain ⟨hsites, hconstants⟩ := lends_of_all h.lends
  obtain ⟨methods, hmethods, hadds⟩ := h.methods
  obtain ⟨methods', hmethods', hadds'⟩ := h'.methods
  obtain ⟨fields, hfields, haddsFields⟩ := h.fields
  obtain ⟨fields', hfields', haddsFields'⟩ := h'.fields
  refine ⟨⟨methods ++ methods', ?_, ?_⟩, ⟨fields ++ fields', ?_, ?_⟩, ?_⟩
  · rw [hmethods', hmethods, List.map_append, List.append_assoc]
  · intro method hmem
    rcases List.mem_append.mp hmem with hfirst | hthen
    · exact hadds method hfirst
    · refine (hadds' method hthen).imp_right ?_
      rintro ⟨source, ⟨hfront, hsource, hname⟩ | ⟨hsource, hname⟩⟩
      · exact ⟨source, .site hfront (hsites source hsource) hname⟩
      · exact ⟨source, .constant (hconstants source hsource) hname⟩
  · rw [hfields', hfields, List.map_append, List.append_assoc]
  · intro field hmem
    rcases List.mem_append.mp hmem with hfirst | hthen
    · exact haddsFields field hfirst
    · obtain ⟨front, hfront, source, hsource, hname⟩ := haddsFields' field hthen
      exact ⟨front, hfront, source, hconstants source hsource, hname⟩
  · refine all_iff.mpr fun instruction hmem => ?_
    have honly := all_iff.mp h'.lends instruction hmem
    exact ⟨fun name hlends => hsites name (honly.sites name hlends),
      fun name hlends => hconstants name (honly.constants name hlends)⟩

end Gains

end ClassFile

/-! ## Methods for call sites -/

/-- A handle that calls a static method has its name. -/
theorem Handle.name_of_isStatic {handle : Handle} {target : MethodRef}
    (h : handle.isStatic target = true) : handle.name = target.name := by
  unfold isStatic at h
  split at h
  · exact congrArg MethodRef.name (of_decide_eq_true h)
  · cases h

namespace CallSites

variable {plan : Plan} {progress progress' : Progress}

/-- A method is named after a site of the class that it was made for. -/
def NamedFor (plan : Plan) (method : Method) : Prop :=
  ∃ site body, .invokedynamic site ∈ plan.cls.methods.flatMap instructionsOf ∧
    plan.generate site = .ok (some body) ∧
    NamedAfter (plan.basename ++ "$" ++ site.bootstrap.name ++ "$") site.name method.name

/-- Every method that is made for one method of the class is named after its site. -/
theorem replaceMethod_named {method method' : Method} (hmethod : method ∈ plan.cls.methods)
    (h : replaceMethod plan method progress = .ok (method', progress'))
    (hold : ∀ added ∈ progress.added, NamedFor plan added) :
    ∀ added ∈ progress'.added, NamedFor plan added := by
  unfold replaceMethod at h
  cases hcode : method.code with
  | none =>
      simp only [hcode, work_pure_eq_ok] at h
      exact h.2 ▸ hold
  | some code =>
      simp only [hcode, work_bind_eq_ok, work_pure_eq_ok] at h
      obtain ⟨instructions, t, hmap, rfl, rfl⟩ := h
      refine work_mapM_run (fun t t' => (∀ added ∈ t.added, NamedFor plan added) →
        ∀ added ∈ t'.added, NamedFor plan added) (fun _ => id) (fun hfirst hthen => hthen ∘ hfirst)
        (fun entry hentry t entry' t' hstep hold => ?_) hmap hold
      rcases replaceInstruction_cases hstep with
        ⟨site, body, name, names, hsite, hgenerate, hnext, -, rfl⟩ | ⟨-, -, rfl⟩
      · intro added hadded
        rcases List.mem_cons.mp hadded with rfl | hearlier
        · refine ⟨site, body, ?_, hgenerate, NameSupply.namedAfter_next hnext⟩
          refine List.mem_flatMap.mpr ⟨method, hmethod, ?_⟩
          unfold instructionsOf
          rw [hcode, ← hsite]
          exact List.mem_map_of_mem hentry
        · exact hold added hearlier
      · exact hold

/-- A method that is made for a site of some bootstrap methods is named after it. -/
theorem NamedFor.addsMethod {linkers : List MethodRef} {method : Method}
    (h : NamedFor plan method)
    (hleaves : ∀ instruction, instruction.NotLinkedBy linkers → Leaves plan.generate instruction)
    (hlinkers : linkers ⊆ Concat.linkers ++ Switch.linkers)
    (hfronts : replacementFronts plan.basename linkers ⊆ siteFronts) :
    plan.cls.AddsMethod method.id := by
  obtain ⟨site, body, hsite, hgenerate, hname⟩ := h
  obtain ⟨linker, hlinker, hstatic⟩ :
      ∃ linker ∈ linkers, site.bootstrap.isStatic linker = true := by
    by_contra hnone
    push Not at hnone
    have hleft : plan.generate site = .ok none :=
      hleaves (.invokedynamic site) fun linker hmem =>
        Bool.eq_false_of_not_eq_true (hnone linker hmem)
    rw [hgenerate] at hleft
    cases hleft
  have hsame : site.bootstrap.name = linker.name := Handle.name_of_isStatic hstatic
  rw [hsame] at hname
  refine .inr ⟨site.name, .site (hfronts (List.mem_map_of_mem hlinker)) ?_ hname⟩
  exact ⟨_, hsite, .site (.inl ⟨linker, hlinkers hlinker, hstatic⟩)⟩

end CallSites

/-- **Replacing call sites** adds methods that are named after them, behind those that were there.
-/
theorem ClassFile.replaceCallSites_ids {cls : ClassFile} {basename : String}
    {generate : CallSite → Except Error (Option Code)} {lowered : Lowered}
    (h : cls.replaceCallSites basename generate = .ok lowered) :
    ∃ added : List Method,
      lowered.cls.methods.map Method.id = cls.methods.map Method.id ++ added.map Method.id ∧
      lowered.cls.fields = cls.fields ∧
      ∀ method ∈ added, CallSites.NamedFor ⟨cls, basename, generate⟩ method := by
  obtain ⟨methods, progress, hrun, rfl⟩ := replaceCallSites_run h
  have hids : methods.map Method.id = cls.methods.map Method.id := by
    refine map_id_of_forall₂ ((work_mapM_forall₂ hrun).imp fun method method' hstep => ?_)
    obtain ⟨_, _, hstep⟩ := hstep
    exact (CallSites.replaceMethod_adds hstep).2
  refine ⟨progress.added.reverse, by rw [List.map_append, hids], rfl, fun method hmem => ?_⟩
  refine work_mapM_run (fun t t' => (∀ added ∈ t.added, CallSites.NamedFor _ added) →
    ∀ added ∈ t'.added, CallSites.NamedFor ⟨cls, basename, generate⟩ added)
    (fun _ => id) (fun hfirst hthen => hthen ∘ hfirst)
    (fun method hmethod t method' t' hstep => CallSites.replaceMethod_named hmethod hstep) hrun
    (fun _ hnone => by cases hnone) method (List.mem_reverse.mp hmem)

/-! ## Members for constants -/

namespace Constants

variable {cls : ClassFile} {found found' : Found}

/-- A dynamic constant as a value. -/
def Dynamic.value (constant : Dynamic) : Loadable :=
  .dynamic constant.name constant.descriptor constant.bootstrap constant.arguments

/-- A value that is a dynamic constant. -/
theorem Dynamic.value_of_eq {value : Loadable} {constant : Dynamic}
    (h : dynamic? value = some constant) : value = constant.value := by
  cases value <;> cases h
  rfl

/-- What a bootstrap method is passed is among its arguments. -/
theorem mem_of_passed {bootstrap : Handle} {arguments : List Loadable} {constant : Dynamic}
    (h : constant ∈ passedConstants bootstrap arguments) : constant.value ∈ arguments := by
  obtain ⟨argument, hmem, hdynamic⟩ := List.mem_filterMap.mp h
  rw [← Dynamic.value_of_eq hdynamic]
  unfold passed at hmem
  split at hmem
  · split at hmem
    · cases hmem
    · exact hmem
  · cases hmem

/-- The names in a constant that a class needs are names in the class. -/
theorem Needed.lends {constant : Dynamic} (h : Needed cls constant) {name : FieldName}
    (hname : constant.value.Lends name) : cls.LendsConstant name := by
  induction h with
  | loaded hmem =>
      obtain ⟨instruction, hinstruction, hloaded⟩ := List.mem_filterMap.mp hmem
      refine ⟨instruction, hinstruction, ?_⟩
      cases instruction <;> try cases hloaded
      case ldc value => exact .loaded (Dynamic.value_of_eq hloaded ▸ hname)
  | passedOn hsite hmem =>
      obtain ⟨instruction, hinstruction, hdynamic⟩ := List.mem_filterMap.mp hsite
      refine ⟨instruction, hinstruction, ?_⟩
      cases instruction <;> try cases hdynamic
      case invokedynamic site =>
        obtain rfl : site = _ := (Option.ite_none_right_eq_some.mp hdynamic).2 |> Option.some.inj
        exact .passed (mem_of_passed hmem) hname
  | inner _ hnull hmem ih => exact ih (.inside hnull (mem_of_passed hmem) hname)

/-- Accessors are named after their constants. -/
def Found.Named (found : Found) : Prop :=
  ∀ entry ∈ bootstrapped found.entries, NamedAfter constantFront entry.1.name entry.2

/-- An accessor that is added is named after its constant. -/
theorem access_named {constant : Dynamic} {access : Access}
    (h : Constants.access cls constant found = .ok (access, found')) (hold : found.Named) :
    found'.Named := by
  rcases access_cases h with ⟨-, rfl⟩ | ⟨-, -, -, -, rfl⟩ | ⟨-, -, name, names, hnext, -, rfl⟩
  · exact hold
  · intro entry hmem
    refine hold entry ?_
    simpa [bootstrapped] using hmem
  · intro entry hmem
    have hcases : entry ∈ bootstrapped found.entries ∨ entry = (constant, name) := by
      simpa [bootstrapped] using hmem
    rcases hcases with hbefore | rfl
    · exact hold entry hbefore
    · exact NameSupply.namedAfter_next hnext

/-- Bouncers are named after call sites of the class. -/
def BouncersNamed (cls : ClassFile) (bouncers : List Bouncer) : Prop :=
  ∀ bouncer ∈ bouncers, ∃ source, cls.LendsSite source ∧
    NamedAfter bouncerFront source bouncer.name

/-- What an instruction needs is named after what is in it. -/
theorem replaceInstruction_named {instruction instruction' : Instruction}
    {bouncer : Option Bouncer} (hmem : instruction ∈ cls.methods.flatMap instructionsOf)
    (h : replaceInstruction cls instruction found = .ok ((instruction', bouncer), found'))
    (hold : found.Named) : found'.Named ∧ BouncersNamed cls bouncer.toList := by
  rcases replaceInstruction_run h with ⟨-, -, rfl, rfl⟩ | ⟨value, constant, rfl, -, hload, rfl⟩ |
    ⟨site, name, names, rfl, hplain, hnext, -, rfl, rfl⟩
  · exact ⟨hold, List.forall_mem_nil _⟩
  · exact ⟨load_moves (fun a b => a.Named → b.Named) access_named hload hold, List.forall_mem_nil _⟩
  · refine ⟨hold, fun bouncer hbouncer => ?_⟩
    obtain rfl := List.mem_singleton.mp hbouncer
    refine ⟨site.name, ⟨_, hmem, .site (.inr ?_)⟩, NameSupply.namedAfter_next hnext⟩
    by_contra hnone
    push Not at hnone
    exact hplain hnone

/-- What a method needs is named after what is in its code. -/
theorem replaceMethod_named {method : Method} {replaced : Method × List Bouncer}
    (hmem : method ∈ cls.methods)
    (h : replaceMethod cls method found = .ok (replaced, found')) (hold : found.Named) :
    found'.Named ∧ BouncersNamed cls replaced.2 := by
  unfold replaceMethod at h
  cases hcode : method.code with
  | none =>
      simp only [hcode, work_pure_eq_ok] at h
      obtain ⟨rfl, rfl⟩ := h
      exact ⟨hold, List.forall_mem_nil _⟩
  | some code =>
      simp only [hcode, work_bind_eq_ok, work_pure_eq_ok, placed, within_eq_ok] at h
      obtain ⟨⟨code', bouncers⟩, t, hrun, rfl, rfl⟩ := h
      obtain ⟨results, hmap, rfl, rfl⟩ := replaceCode_run hrun
      refine work_mapM_collects
        (fun t results t' => t.Named → t'.Named ∧ BouncersNamed cls (results.filterMap Prod.snd))
        (fun _ hnamed => ⟨hnamed, List.forall_mem_nil _⟩) (fun hfirst hthen hnamed => ?_)
        (fun entry hentry t result t' hstep hnamed => ?_) hmap hold
      · obtain ⟨hbetween, hbouncers⟩ := hfirst hnamed
        obtain ⟨hlast, hothers⟩ := hthen hbetween
        rw [List.filterMap_append]
        exact ⟨hlast, List.forall_mem_append.mpr ⟨hbouncers, hothers⟩⟩
      · have hin : entry.instruction ∈ cls.methods.flatMap instructionsOf := by
          refine List.mem_flatMap.mpr ⟨method, hmem, ?_⟩
          unfold instructionsOf
          rw [hcode]
          exact List.mem_map_of_mem hentry
        have hnames := replaceInstruction_named hin (replaceEntry_eq_ok hstep).2 hnamed
        obtain ⟨_, _ | bouncer⟩ := result <;> exact hnames

/-- What all methods need is named after what is in the class. -/
theorem replaceMethods_named {replaced : List (Method × List Bouncer)}
    (h : cls.methods.mapM (replaceMethod cls) found = .ok (replaced, found'))
    (hold : found.Named) : found'.Named ∧ BouncersNamed cls (replaced.flatMap Prod.snd) := by
  refine work_mapM_collects
    (fun t results t' => t.Named → t'.Named ∧ BouncersNamed cls (results.flatMap Prod.snd))
    (fun _ hnamed => ⟨hnamed, List.forall_mem_nil _⟩) (fun hfirst hthen hnamed => ?_)
    (fun method hmem t result t' hstep hnamed => ?_) h hold
  · obtain ⟨hbetween, hbouncers⟩ := hfirst hnamed
    obtain ⟨hlast, hothers⟩ := hthen hbetween
    rw [List.flatMap_append]
    exact ⟨hlast, List.forall_mem_append.mpr ⟨hbouncers, hothers⟩⟩
  · simpa using replaceMethod_named hmem hstep hnamed

/-- The accessors that bouncers need are named after their constants. -/
theorem bouncerMethods_named {bouncers : List Bouncer} {methods : List Method}
    (h : bouncers.mapM (bouncerMethod cls) found = .ok (methods, found')) (hold : found.Named) :
    found'.Named :=
  work_mapM_run (fun a b => a.Named → b.Named) (fun _ => id) (fun hfirst hthen => hthen ∘ hfirst)
    (fun _ _ _ _ _ hstep => (bouncerMethod_moves (fun a b => a.Named → b.Named) (fun _ => id)
      (fun hfirst hthen => hthen ∘ hfirst) access_named hstep).1) h hold

/-- The accessors that accessors need are named after their constants. -/
theorem Visits.named {index : Nat} {accessors : List (Method × List Field)}
    (h : Visits cls index found accessors found') (hold : found.Named) : found'.Named := by
  induction h with
  | none => exact hold
  | null _ _ ih => exact ih hold
  | accessor _ hmethod _ ih =>
      exact ih ((accessorMethod_moves (fun a b => a.Named → b.Named) (fun _ => id)
        (fun hfirst hthen => hthen ∘ hfirst) access_named hmethod).1 hold)

/-- The fields of a constant that is named after something in the class are named after it too. -/
theorem addsField_of_fieldsOf {source name : String} {constant : Dynamic}
    (hsource : cls.LendsConstant source) (hname : NamedAfter constantFront source name) :
    ∀ field ∈ fieldsOf name constant, cls.AddsField field.name := by
  simp only [fieldsOf, List.forall_mem_cons]
  refine ⟨⟨constantFront, ?_, source, hsource, hname⟩,
    ⟨flagName constantFront, ?_, source, hsource, hname.prepend _⟩,
    ⟨lockName constantFront, ?_, source, hsource, hname.prepend _⟩, List.forall_mem_nil _⟩ <;>
  simp [fieldFronts]

/-- The constants that have accessors in the end are constants of the class. -/
theorem lends_of_visits {names : NameSupply} {found found₁ found₂ : Found}
    {accessors : List (Method × List Field)}
    (hloaded : Found.Asks ⟨[], names⟩ found (loadedConstants cls))
    (hpassed : found.Asks found₁
      ((dynamicSites cls).flatMap fun site => passedConstants site.bootstrap site.arguments))
    (hvisits : Visits cls 0 found₁ accessors found₂) :
    ∀ entry ∈ bootstrapped found₂.entries, cls.LendsConstant entry.1.name := by
  rintro ⟨constant, name⟩ hentry
  have hmem := mem_bootstrapped.mp hentry
  have hneeded := (mem_known_iff_needed hloaded hpassed hvisits constant).mp
    (Found.mem_known.mpr ⟨_, hmem⟩)
  refine hneeded.lends (.here ?_)
  rcases ((hloaded.append hpassed).append hvisits.asks).only _ hmem with hnone | ⟨-, hnull⟩
  · cases hnone
  · simpa using hnull.symm

/-- Accessors and their fields are named after constants of the class. -/
theorem Visits.adds {accessors : List (Method × List Field)}
    (h : Visits cls 0 found accessors found') (hnamed : found'.Named)
    (hlends : ∀ entry ∈ bootstrapped found'.entries, cls.LendsConstant entry.1.name) :
    ∀ accessor ∈ accessors, cls.AddsMethod accessor.1.id ∧
      ∀ field ∈ accessor.2, cls.AddsField field.name := by
  have hwritten := h.written
  rw [List.drop_zero] at hwritten
  intro accessor hmem
  obtain ⟨entry, hentry, ⟨_, _, -, -, hsame⟩, hfields⟩ := exists_left_of_forall₂ hwritten hmem
  rw [hsame, hfields]
  exact ⟨.inr ⟨_, .constant (hlends entry hentry) (hnamed entry hentry)⟩,
    addsField_of_fieldsOf (hlends entry hentry) (hnamed entry hentry)⟩

/-- Bouncers are named after call sites of the class. -/
theorem bouncerMethods_add {bouncers : List Bouncer} {methods : List Method}
    (h : bouncers.mapM (bouncerMethod cls) found = .ok (methods, found'))
    (hnamed : BouncersNamed cls bouncers) : ∀ method ∈ methods, cls.AddsMethod method.id := by
  intro method hmem
  obtain ⟨bouncer, hbouncer, t, t', hmethod⟩ := exists_left_of_forall₂ (work_mapM_forall₂ h) hmem
  obtain ⟨code, -, rfl⟩ := bouncerMethod_run hmethod
  obtain ⟨source, hsource, hname⟩ := hnamed bouncer hbouncer
  exact .inr ⟨source, .site (by simp [siteFronts]) hsource hname⟩

/-- **Lowering constants** adds methods that are named after call sites and constants, and fields
that are named after constants. -/
theorem dynamicConstants_ids {lowered : Lowered} (h : Lower.dynamicConstants cls = .ok lowered) :
    (∃ added : List Method,
      lowered.cls.methods.map Method.id = cls.methods.map Method.id ++ added.map Method.id ∧
        ∀ method ∈ added, cls.AddsMethod method.id) ∧
      ∃ added : List Field,
        lowered.cls.fields.map Field.id = cls.fields.map Field.id ++ added.map Field.id ∧
          ∀ field ∈ added, cls.AddsField field.name := by
  obtain ⟨replaced, found, hrun, ⟨-, -, rfl⟩ |
    ⟨bouncers, found₁, accessors, found₂, methods, hbouncers, hvisits, hlocks, -, -, rfl⟩⟩ :=
    dynamicConstants_run h
  · exact ⟨⟨[], by simp [Lowered.unchanged], List.forall_mem_nil _⟩,
      ⟨[], by simp [Lowered.unchanged], List.forall_mem_nil _⟩⟩
  obtain ⟨hfirst, hbouncersNamed⟩ := replaceMethods_named hrun (by rintro _ ⟨⟩)
  have hnamed := hvisits.named (bouncerMethods_named hbouncers hfirst)
  -- The constants that are known in the end are those that the class needs.
  obtain ⟨hloaded, hreplaced⟩ := replaceMethods_asks hrun
  have hpassed := (bouncerMethods_loads hbouncers).1
  rw [flatMap_passedConstants (bouncers_of_replacesIn hreplaced)] at hpassed
  have haccessors := hvisits.adds hnamed (lends_of_visits hloaded hpassed hvisits)
  have hmethods : ∀ method ∈ bouncers ++ accessors.map Prod.fst, cls.AddsMethod method.id := by
    refine List.forall_mem_append.mpr ⟨bouncerMethods_add hbouncers hbouncersNamed, ?_⟩
    exact List.forall_mem_map.mpr fun accessor hmem => (haccessors accessor hmem).1
  constructor
  · have hids := replaceMethods_ids hrun
    rcases addLocks_cases hlocks with hstarted | ⟨-, hstarted⟩
    · refine ⟨bouncers ++ accessors.map Prod.fst, ?_, hmethods⟩
      simp only [List.map_append, hstarted, hids, List.append_assoc]
    · refine ⟨emptyInitializer :: (bouncers ++ accessors.map Prod.fst), ?_,
        List.forall_mem_cons.mpr ⟨.inl rfl, hmethods⟩⟩
      simp only [List.map_append, List.map_cons, hstarted, hids, List.append_assoc,
        List.singleton_append]
  · refine ⟨accessors.flatMap Prod.snd, by rw [List.map_append], fun field hmem => ?_⟩
    obtain ⟨accessor, haccessor, hfield⟩ := List.mem_flatMap.mp hmem
    exact (haccessors accessor haccessor).2 field hfield

end Constants

/-! ## All passes -/

/-- A class has gained methods by replacing the call sites of some bootstrap methods. -/
theorem ClassFile.Gains.of_replaceCallSites {cls : ClassFile} {basename : String}
    {generate : CallSite → Except Error (Option Code)} {linkers : List MethodRef}
    {lowered : Lowered} (h : cls.replaceCallSites basename generate = .ok lowered)
    (hleaves : ∀ instruction, instruction.NotLinkedBy linkers →
      CallSites.Leaves generate instruction)
    (hlinkers : linkers ⊆ Concat.linkers ++ Switch.linkers)
    (hfronts : replacementFronts basename linkers ⊆ siteFronts)
    (hlends : lowered.cls.All (LendsOnly cls)) : cls.Gains lowered.cls := by
  obtain ⟨added, hids, hfields, hnamed⟩ := replaceCallSites_ids h
  refine ⟨⟨added, hids, fun method hmem => ?_⟩,
    ⟨[], by rw [hfields, List.map_nil, List.append_nil], List.forall_mem_nil _⟩, hlends⟩
  exact (hnamed method hmem).addsMethod hleaves hlinkers hfronts

/-- **What a pass adds**: members that are named after call sites and constants of the class. -/
theorem Pass.run_gains {pass : Pass} {cls : ClassFile} {lowered : Lowered}
    (h : pass.run cls = .ok lowered) : cls.Gains lowered.cls := by
  have hlends := run_steady (steady_lendsOnly cls) h cls.all_lendsOnly
  rcases run_members h with hconcat | hswitch | hconstants | hsame
  · refine .of_replaceCallSites hconcat (fun _ => Concat.leaves_iff.mpr)
      (List.subset_append_left _ _) (fun front hfront => ?_) hlends
    exact List.mem_cons_of_mem _ (List.mem_append_left _ hfront)
  · refine .of_replaceCallSites hswitch (fun _ => Switch.leaves_iff.mpr)
      (List.subset_append_right _ _) (fun front hfront => ?_) hlends
    exact List.mem_cons_of_mem _ (List.mem_append_right _ hfront)
  · obtain ⟨hmethods, hfields⟩ := Constants.dynamicConstants_ids hconstants
    exact ⟨hmethods, hfields, hlends⟩
  · exact .of_sameIds hsame hlends

/-- **What a conversion adds**: members that are named after call sites and constants of the class
that was converted. -/
theorem Converter.convert_gains {converter : Converter} {cls cls' : ClassFile}
    {session session' : Session}
    (h : converter.convert cls session = (.ok (some cls'), session')) : cls.Gains cls' := by
  refine convert_keeps (P := cls.Gains) (fun pass _ mid lowered hrun hold => ?_)
    (fun table mid widened before after hwiden hold => ?_) (fun mid version hold => ?_) h
    (.refl cls)
  · exact hold.trans (Pass.run_gains hrun)
  · refine hold.trans (.of_sameIds (SymbolTable.widenCalls_sameIds hwiden) ?_)
    obtain ⟨methods, hmap, rfl⟩ := SymbolTable.widenCalls_run hwiden
    intro method' hmem
    obtain ⟨method, hmethod, _, _, hstep⟩ := exists_left_of_forall₂ (task_mapM_forall₂ hmap) hmem
    exact SymbolTable.widenMethod_steady (steady_lendsOnly mid) hstep
      (mid.all_lendsOnly method hmethod)
  · exact ⟨hold.methods, hold.fields, hold.lends⟩

end Downlevel
