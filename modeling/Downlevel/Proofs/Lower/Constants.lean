import Downlevel.Proofs.Lower.CallSites

/-!
# What is left of dynamic constants

Loading a dynamic constant becomes a static call or the loading of null, and a call site with
dynamic constants among its arguments becomes one without arguments, bound to a new method.  All
code that is written on the way, the accessors and their locks as well as the methods that pass
arguments on, is direct.

* `access_cases`, `replaceInstruction_run` — all that can happen to one constant and to one
  instruction;
* `straight_callBootstrap` — calling a bootstrap method is straight, whatever its arguments are;
* `dynamicConstants_all` — what holds of plain and of direct instructions, and of the sites that are
  bound anew, holds of the class behind;
* `dynamicConstants_of_plain`, `plain_of_unchanged` — the class is said to be unchanged exactly if
  it used no dynamic constants.
-/

namespace Downlevel

open Instruction

namespace Constants

/-- An instruction that uses no dynamic constants: it loads none, and has none among the arguments
of its bootstrap method. -/
def Plain : Instruction → Prop
  | .ldc value => dynamic? value = none
  | .invokedynamic site => ∀ argument ∈ site.arguments, dynamic? argument = none
  | _ => True

/-- A direct instruction uses no dynamic constants. -/
theorem Plain.of_direct {instruction : Instruction} (h : instruction.Direct) :
    Plain instruction := by
  cases instruction <;> first | exact h | cases h

/-- A dynamic call site that is bound to a new method, which loads the arguments itself. -/
def bounced (cls : ClassFile) (site : CallSite) (number : Nat) : Instruction :=
  .invokedynamic { site with
    bootstrap := .method (.static cls.access.isInterface)
      ⟨cls.name, "indyconstant$" ++ site.name ++ "$" ++ toString number, bouncerDescriptor⟩
    arguments := [] }

/-- A site that is bound anew uses no dynamic constants. -/
theorem plain_bounced (cls : ClassFile) (site : CallSite) (number : Nat) :
    Plain (bounced cls site number) := by
  intro argument hmem
  cases hmem

section Access

variable {cls : ClassFile} {constant : Dynamic} {found found' : Found}

/-- **One constant.**  It was met before; or it is null and becomes known as such; or it gets the
next free name for its accessor, together with those of its two other fields. -/
theorem access_cases {access : Access}
    (h : Constants.access cls constant found = .ok (access, found')) :
    (found.entries.lookup constant = some access ∧ found' = found) ∨
      (found.entries.lookup constant = none ∧ constant.bootstrap.isMethod nullBootstrap = true ∧
        (∃ type, JavaType.parse constant.descriptor = .ok type ∧ type.isReference = true) ∧
        access = .null ∧
        found' = { found with entries := found.entries ++ [(constant, .null)] }) ∨
      (found.entries.lookup constant = none ∧ constant.bootstrap.isMethod nullBootstrap = false ∧
        ∃ name names,
          found.names.next ("constant$" ++ constant.name ++ "$") ["has$", "lock$"] =
            (name, names) ∧
          access = .accessor name ∧
          found' = ⟨found.entries ++ [(constant, .accessor name)], names⟩) := by
  unfold Constants.access at h
  simp only [work_bind_eq_ok, work_get_eq_ok] at h
  obtain ⟨_, _, ⟨rfl, rfl⟩, h⟩ := h
  cases hknown : found.entries.lookup constant with
  | some known =>
      simp only [hknown, work_pure_eq_ok] at h
      obtain ⟨rfl, rfl⟩ := h
      exact .inl ⟨rfl, rfl⟩
  | none =>
      simp only [hknown] at h
      by_cases hnull : constant.bootstrap.isMethod nullBootstrap
      · simp only [hnull, if_true, work_bind_eq_ok, work_lift_eq_ok] at h
        obtain ⟨type, _, ⟨htype, rfl⟩, h⟩ := h
        by_cases href : type.isReference
        · simp only [href, if_true, work_bind_eq_ok, work_modify_eq_ok, work_pure_eq_ok] at h
          obtain ⟨_, _, rfl, rfl, rfl⟩ := h
          exact .inr (.inl ⟨rfl, hnull, ⟨type, htype, href⟩, rfl, rfl⟩)
        · simp [href] at h
      · simp only [hnull, Bool.false_eq_true, if_false, work_bind_eq_ok, work_get_eq_ok] at h
        obtain ⟨_, _, ⟨rfl, rfl⟩, h⟩ := h
        simp only [work_set_eq_ok, work_pure_eq_ok] at h
        obtain ⟨_, _, rfl, rfl, rfl⟩ := h
        exact .inr (.inr ⟨rfl, by simpa using hnull, _, _, rfl, rfl, rfl⟩)

/-- Where a constant is met, there is one. -/
theorem access_entries_ne_nil {access : Access}
    (h : Constants.access cls constant found = .ok (access, found')) : found'.entries ≠ [] := by
  rcases access_cases h with ⟨hknown, rfl⟩ | ⟨_, _, _, _, rfl⟩ | ⟨_, _, _, _, _, _, rfl⟩
  · intro hnil
    rw [hnil] at hknown
    cases hknown
  · simp
  · simp

/-- A constant is loaded directly from now on. -/
theorem load_spec {instruction : Instruction}
    (h : load cls constant found = .ok (instruction, found')) :
    instruction.Straight ∧ found'.entries ≠ [] := by
  unfold load at h
  simp only [work_bind_eq_ok] at h
  obtain ⟨access, t, haccess, h⟩ := h
  have hentries := access_entries_ne_nil haccess
  cases access with
  | null =>
      simp only [work_pure_eq_ok] at h
      obtain ⟨rfl, rfl⟩ := h
      exact ⟨trivial, hentries⟩
  | accessor name =>
      simp only [work_pure_eq_ok] at h
      obtain ⟨rfl, rfl⟩ := h
      exact ⟨trivial, hentries⟩

end Access

section Replace

variable {cls : ClassFile} {found found' : Found}

/-- **One instruction.**  It uses no dynamic constants and stays; or it loads one, which is loaded
by its accessor; or it is a site with dynamic constants among its arguments, which is bound to a new
method under the next free name. -/
theorem replaceInstruction_run {instruction instruction' : Instruction} {bouncer : Option Bouncer}
    (h : replaceInstruction cls instruction found = .ok ((instruction', bouncer), found')) :
    (Plain instruction ∧ instruction' = instruction ∧ bouncer = none ∧ found' = found) ∨
      (∃ value constant, instruction = .ldc value ∧ dynamic? value = some constant ∧
        load cls constant found = .ok (instruction', found') ∧ bouncer = none) ∨
      (∃ site name names, instruction = .invokedynamic site ∧ ¬ Plain instruction ∧
        found.names.next ("indyconstant$" ++ site.name ++ "$") [] = (name, names) ∧
        instruction' = .invokedynamic { site with
          bootstrap := .method (.static cls.access.isInterface) ⟨cls.name, name, bouncerDescriptor⟩
          arguments := [] } ∧
        bouncer = some ⟨name, site.bootstrap, site.arguments⟩ ∧
        found' = { found with names := names }) := by
  unfold replaceInstruction at h
  cases instruction
  case ldc value =>
    cases hvalue : dynamic? value with
    | some constant =>
        simp only [hvalue, work_bind_eq_ok, work_pure_eq_ok, Prod.mk.injEq] at h
        obtain ⟨loaded, t, hload, ⟨rfl, rfl⟩, rfl⟩ := h
        exact .inr (.inl ⟨value, constant, rfl, hvalue, hload, rfl⟩)
    | none =>
        simp only [hvalue, work_pure_eq_ok, Prod.mk.injEq] at h
        obtain ⟨⟨rfl, rfl⟩, rfl⟩ := h
        exact .inl ⟨hvalue, rfl, rfl, rfl⟩
  case invokedynamic site =>
    by_cases hany : (site.arguments.any fun argument => (dynamic? argument).isSome) = true
    · simp only [hany, if_true, work_bind_eq_ok, work_get_eq_ok] at h
      obtain ⟨_, _, ⟨rfl, rfl⟩, h⟩ := h
      simp only [work_set_eq_ok, work_pure_eq_ok, Prod.mk.injEq] at h
      obtain ⟨_, _, rfl, ⟨rfl, rfl⟩, rfl⟩ := h
      refine .inr (.inr ⟨site, _, _, rfl, ?_, rfl, rfl, rfl, rfl⟩)
      intro hplain
      obtain ⟨argument, hmem, hsome⟩ := List.any_eq_true.mp hany
      rw [hplain argument hmem] at hsome
      cases hsome
    · simp only [hany, Bool.false_eq_true, if_false, work_pure_eq_ok, Prod.mk.injEq] at h
      obtain ⟨⟨rfl, rfl⟩, rfl⟩ := h
      refine .inl ⟨fun argument hmem => ?_, rfl, rfl, rfl⟩
      cases hargument : dynamic? argument with
      | none => rfl
      | some constant =>
          exact absurd (List.any_eq_true.mpr ⟨argument, hmem, by simp [hargument]⟩) hany
  all_goals
    simp only [work_pure_eq_ok, Prod.mk.injEq] at h
    obtain ⟨⟨rfl, rfl⟩, rfl⟩ := h
    exact .inl ⟨trivial, rfl, rfl, rfl⟩

/-- What becomes of one instruction, without the names: it stays, becomes direct, or is bound
anew. -/
theorem replaceInstruction_cases {instruction instruction' : Instruction} {bouncer : Option Bouncer}
    (h : replaceInstruction cls instruction found = .ok ((instruction', bouncer), found')) :
    (Plain instruction ∧ instruction' = instruction ∧ bouncer = none ∧ found' = found) ∨
      (¬ Plain instruction ∧ instruction'.Straight ∧ bouncer = none ∧ found'.entries ≠ []) ∨
      (¬ Plain instruction ∧ ∃ site number, instruction' = bounced cls site number ∧
        bouncer.isSome ∧ found'.entries = found.entries) := by
  rcases replaceInstruction_run h with hstays | ⟨value, constant, rfl, hvalue, hload, rfl⟩ |
    ⟨site, name, names, rfl, hsite, hnext, rfl, rfl, rfl⟩
  · exact .inl hstays
  · obtain ⟨hdirect, hentries⟩ := load_spec hload
    exact .inr (.inl ⟨by simp [Plain, hvalue], hdirect, rfl, hentries⟩)
  · obtain ⟨rfl, -⟩ := Prod.mk.inj hnext
    exact .inr (.inr ⟨hsite, site, _, rfl, rfl, rfl⟩)

/-- An instruction that uses no dynamic constants stays. -/
theorem replaceInstruction_of_plain {instruction : Instruction} (h : Plain instruction)
    (found : Found) :
    replaceInstruction cls instruction found = .ok ((instruction, none), found) := by
  unfold replaceInstruction
  cases instruction
  case ldc value =>
    have hvalue : dynamic? value = none := h
    simp [hvalue]
  case invokedynamic site =>
    have hnone : (site.arguments.any fun argument => (dynamic? argument).isSome) = false := by
      simp only [List.any_eq_false, Bool.not_eq_true, Option.isSome_eq_false_iff,
        Option.isNone_iff_eq_none]
      exact h
    simp [hnone]
  all_goals rfl

/-- One entry of code: a run for its instruction, which keeps the label. -/
theorem replaceEntry_eq_ok {entry entry' : Labelled} {bouncer : Option Bouncer}
    (h : replaceEntry cls entry found = .ok ((entry', bouncer), found')) :
    entry'.label = entry.label ∧
      replaceInstruction cls entry.instruction found =
        .ok ((entry'.instruction, bouncer), found') := by
  unfold replaceEntry at h
  simp only [work_bind_eq_ok, work_pure_eq_ok, Prod.mk.injEq] at h
  obtain ⟨⟨instruction, _⟩, t, hstep, ⟨rfl, rfl⟩, rfl⟩ := h
  exact ⟨rfl, hstep⟩

/-- What happens to the instructions of code, one by one, and what bouncers that takes. -/
theorem replaceCode_run {code code' : Code} {bouncers : List Bouncer}
    (h : replaceCode cls code found = .ok ((code', bouncers), found')) :
    ∃ replaced, code.instructions.mapM (replaceEntry cls) found = .ok (replaced, found') ∧
      code' = { code with instructions := replaced.map Prod.fst } ∧
      bouncers = replaced.filterMap Prod.snd := by
  unfold replaceCode at h
  simp only [work_bind_eq_ok, work_pure_eq_ok, Prod.mk.injEq] at h
  obtain ⟨replaced, t, hrun, ⟨rfl, rfl⟩, rfl⟩ := h
  exact ⟨replaced, hrun, rfl, rfl⟩

/-- Code in which nothing uses dynamic constants stays. -/
theorem replaceCode_of_plain {code : Code} (h : code.All Plain) (found : Found) :
    replaceCode cls code found = .ok ((code, []), found) := by
  have hsame := work_mapM_of_pure code.instructions (f := replaceEntry cls)
    (g := fun entry => (entry, none))
    (fun entry hmem t => by
      unfold replaceEntry
      simp only [work_bind_eq_ok, work_pure_eq_ok]
      exact ⟨_, _, replaceInstruction_of_plain (h entry hmem) t, rfl, rfl⟩) found
  unfold replaceCode
  simp only [work_bind_eq_ok, work_pure_eq_ok]
  refine ⟨_, _, hsame, ?_, rfl⟩
  simp [Function.comp_def]

/-- A method in which nothing uses dynamic constants stays. -/
theorem replaceMethod_of_plain {method : Method} (h : method.All Plain) (found : Found) :
    replaceMethod cls method found = .ok ((method, []), found) := by
  unfold replaceMethod
  cases hcode : method.code with
  | none => rfl
  | some code =>
      have hrun : replaceCode cls code found = .ok ((code, []), found) :=
        replaceCode_of_plain (h code hcode) found
      simp only [work_bind_eq_ok, work_pure_eq_ok, placed, within_eq_ok]
      refine ⟨_, _, hrun, ?_, rfl⟩
      cases method
      cases hcode
      rfl

/-- Where no constant was met and no bouncer is needed, that was so before, and nothing used dynamic
constants. -/
theorem plain_of_entries_nil {method : Method} {replaced : Method × List Bouncer}
    (h : replaceMethod cls method found = .ok (replaced, found')) (hnil : found'.entries = []) :
    found.entries = [] ∧ (replaced.2 = [] → method.All Plain) := by
  unfold replaceMethod at h
  cases hcode : method.code with
  | none =>
      simp only [hcode, work_pure_eq_ok] at h
      obtain ⟨rfl, rfl⟩ := h
      exact ⟨hnil, fun _ code hsome => by rw [hcode] at hsome; cases hsome⟩
  | some code =>
      simp only [hcode, work_bind_eq_ok, work_pure_eq_ok, placed, within_eq_ok] at h
      obtain ⟨⟨code', bouncers⟩, t, hrun, rfl, rfl⟩ := h
      obtain ⟨entries, hmap, rfl, rfl⟩ := replaceCode_run hrun
      have hquiet := work_mapM_quiet (fun found => found.entries = [])
        (fun entry result => result.2 = none → Plain entry.instruction)
        (fun entry _ t result t' hstep hnone => by
          rcases replaceInstruction_cases (replaceEntry_eq_ok hstep).2 with
            ⟨hplain, _, _, rfl⟩ | ⟨_, _, _, hsome⟩ | ⟨_, _, _, _, hbouncer, hsame⟩
          · exact ⟨hnone, fun _ => hplain⟩
          · exact absurd hnone hsome
          · refine ⟨hsame ▸ hnone, fun hno => ?_⟩
            rw [hno] at hbouncer
            cases hbouncer)
        hmap hnil
      refine ⟨hquiet.1, fun hempty code' hcode' entry hmem => ?_⟩
      rw [hcode] at hcode'
      cases hcode'
      obtain ⟨result, hresult, hgood⟩ := exists_right_of_forall₂ hquiet.2 hmem
      exact hgood (List.filterMap_eq_nil_iff.mp hempty result hresult)

/-- The instructions of a method behind are as a property says that holds of direct instructions, of
sites bound anew, and of what used no dynamic constants. -/
theorem replaceMethod_holds {P : Instruction → Prop}
    (hdirect : ∀ instruction, instruction.Direct → P instruction)
    (hbounced : ∀ site number, P (bounced cls site number))
    {method : Method} {replaced : Method × List Bouncer}
    (h : replaceMethod cls method found = .ok (replaced, found'))
    (hplain : method.All fun instruction => Plain instruction → P instruction) :
    replaced.1.All P := by
  unfold replaceMethod at h
  cases hcode : method.code with
  | none =>
      simp only [hcode, work_pure_eq_ok] at h
      obtain ⟨rfl, rfl⟩ := h
      intro code hsome
      rw [hcode] at hsome
      cases hsome
  | some code =>
      simp only [hcode, work_bind_eq_ok, work_pure_eq_ok, placed, within_eq_ok] at h
      obtain ⟨⟨code', bouncers⟩, t, hrun, rfl, rfl⟩ := h
      obtain ⟨entries, hmap, rfl, rfl⟩ := replaceCode_run hrun
      intro code' hcode' entry' hmem
      cases hcode'
      obtain ⟨result, hresult, rfl⟩ := List.mem_map.mp hmem
      obtain ⟨entry, hentry, t, t', hstep⟩ :=
        exists_left_of_forall₂ (work_mapM_forall₂ hmap) hresult
      rcases replaceInstruction_cases (replaceEntry_eq_ok hstep).2 with
        ⟨hstays, hsame, _, _⟩ | ⟨_, hnew, _, _⟩ | ⟨_, site, number, hsite, _, _⟩
      · rw [hsame]
        exact hplain code hcode entry hentry hstays
      · exact hdirect _ hnew.direct
      · rw [hsite]
        exact hbounced site number

end Replace

/-! ## Generated code is direct -/

section Generated

variable {cls : ClassFile} {found found' : Found}

/-- The leading arguments are loaded without further ado. -/
theorem helps_values {leading : Leading} {values : List (JavaType × Instruction)}
    (h : leading.values = .ok values) : ∀ value ∈ values, value.2.Helps := by
  cases leading with
  | ofConstant constant =>
      simp only [Leading.values, bind_eq_ok, pure_eq_ok] at h
      obtain ⟨type, _, rfl⟩ := h
      intro value hmem
      simp only [List.mem_cons, List.not_mem_nil, or_false] at hmem
      rcases hmem with rfl | rfl | rfl
      · exact .inl rfl
      · exact Fragment.helps_text _
      · exact Fragment.helps_classOf _
  | passedOn =>
      cases h
      intro value hmem
      simp only [List.mem_cons, List.not_mem_nil, or_false] at hmem
      rcases hmem with rfl | rfl | rfl <;> trivial

/-- Loading the leading arguments takes nothing but helping instructions. -/
theorem helps_loadLeading {values : List (JavaType × Instruction)} {parameters : List JavaType}
    {instructions : List Instruction} (h : loadLeading values parameters = .ok instructions)
    (hvalues : ∀ value ∈ values, value.2.Helps) :
    ∀ instruction ∈ instructions, instruction.Helps := by
  induction values generalizing parameters instructions with
  | nil =>
      cases h
      intro instruction hmem
      cases hmem
  | cons value rest ih =>
      cases parameters with
      | nil =>
          cases h
          intro instruction hmem
          cases hmem
      | cons parameter parameters =>
          simp only [loadLeading, bind_eq_ok, pure_eq_ok] at h
          obtain ⟨converted, hconverted, others, hothers, rfl⟩ := h
          intro instruction hmem
          rcases List.mem_cons.mp hmem with rfl | hmem
          · exact hvalues value List.mem_cons_self
          · rcases List.mem_append.mp hmem with hconv | hrest
            · exact Fragment.helps_adapt hconverted instruction hconv
            · exact ih hothers (fun other hother => hvalues other (List.mem_cons_of_mem _ hother))
                instruction hrest

/-- Loading a static argument is straight, also if it is a dynamic constant. -/
theorem straight_loadArgument {argument : Loadable} {parameter : JavaType}
    {instructions : List Instruction}
    (h : loadArgument cls argument parameter found = .ok (instructions, found')) :
    ∀ instruction ∈ instructions, instruction.Straight := by
  unfold loadArgument at h
  cases hargument : dynamic? argument with
  | some constant =>
      simp only [hargument, work_bind_eq_ok, work_lift_eq_ok, work_pure_eq_ok] at h
      obtain ⟨first, t, hfirst, type, _, ⟨_, rfl⟩, converted, _, ⟨hconverted, rfl⟩, rfl, rfl⟩ := h
      intro instruction hmem
      rcases List.mem_cons.mp hmem with rfl | hconv
      · exact (load_spec hfirst).1
      · exact (Fragment.helps_adapt hconverted instruction hconv).straight
  | none =>
      simp only [hargument, work_bind_eq_ok, work_lift_eq_ok, work_pure_eq_ok] at h
      obtain ⟨_, _, ⟨rfl, rfl⟩, type, _, ⟨_, rfl⟩, converted, _, ⟨hconverted, rfl⟩, rfl, rfl⟩ := h
      intro instruction hmem
      rcases List.mem_cons.mp hmem with rfl | hconv
      · exact hargument
      · exact (Fragment.helps_adapt hconverted instruction hconv).straight

/-- Loading static arguments is straight. -/
theorem straight_loadArguments {arguments : List Loadable} {parameters : List JavaType}
    {instructions : List Instruction}
    (h : loadArguments cls arguments parameters found = .ok (instructions, found')) :
    ∀ instruction ∈ instructions, instruction.Straight := by
  induction arguments generalizing parameters instructions found with
  | nil =>
      simp only [loadArguments, work_pure_eq_ok] at h
      obtain ⟨rfl, _⟩ := h
      intro instruction hmem
      cases hmem
  | cons argument rest ih =>
      cases parameters with
      | nil =>
          simp only [loadArguments, work_pure_eq_ok] at h
          obtain ⟨rfl, _⟩ := h
          intro instruction hmem
          cases hmem
      | cons parameter parameters =>
          simp only [loadArguments, work_bind_eq_ok, work_pure_eq_ok] at h
          obtain ⟨first, t, hfirst, others, t', hothers, rfl, rfl⟩ := h
          intro instruction hmem
          rcases List.mem_append.mp hmem with hhere | hrest
          · exact straight_loadArgument hfirst instruction hhere
          · exact ih hothers instruction hrest

/-- Storing static arguments in an array is straight. -/
theorem straight_storeArguments {element : JavaType} {index : Nat} {arguments : List Loadable}
    {instructions : List Instruction}
    (h : storeArguments cls element index arguments found = .ok (instructions, found')) :
    ∀ instruction ∈ instructions, instruction.Straight := by
  induction arguments generalizing index instructions found with
  | nil =>
      simp only [storeArguments, work_pure_eq_ok] at h
      obtain ⟨rfl, _⟩ := h
      intro instruction hmem
      cases hmem
  | cons argument rest ih =>
      simp only [storeArguments, work_bind_eq_ok, work_pure_eq_ok] at h
      obtain ⟨loaded, t, hloaded, others, t', hothers, rfl, rfl⟩ := h
      intro instruction hmem
      simp only [List.cons_append, List.mem_cons, List.mem_append] at hmem
      rcases hmem with rfl | rfl | hhere | rfl | hrest
      · trivial
      · exact Fragment.straight_int _
      · exact straight_loadArgument hloaded instruction hhere
      · trivial
      · exact ih hothers instruction hrest

/-- Collecting static arguments: a new array of the type of the elements, which has to have a name,
and the arguments stored in it. -/
theorem collectArguments_run {array : JavaType} {arguments : List Loadable}
    {instructions : List Instruction}
    (h : collectArguments cls array arguments found = .ok (instructions, found')) :
    ∃ element name stored, array.element? = some element ∧ element.internalName? = some name ∧
      storeArguments cls element 0 arguments found = .ok (stored, found') ∧
      instructions =
        Fragment.int (Int32.ofNat arguments.length) :: .anewarray name :: stored := by
  unfold collectArguments at h
  cases hbind : array.element?.bind fun element => element.internalName?.map (element, ·) with
  | none => simp [hbind] at h
  | some pair =>
      obtain ⟨_, helement, hmap⟩ := Option.bind_eq_some_iff.mp hbind
      obtain ⟨name, hname, rfl⟩ := Option.map_eq_some_iff.mp hmap
      simp only [hbind, work_bind_eq_ok, work_pure_eq_ok] at h
      obtain ⟨stored, _, hstored, rfl, rfl⟩ := h
      exact ⟨_, name, stored, helement, hname, hstored, rfl⟩

/-- Collecting static arguments in an array is straight. -/
theorem straight_collectArguments {array : JavaType} {arguments : List Loadable}
    {instructions : List Instruction}
    (h : collectArguments cls array arguments found = .ok (instructions, found')) :
    ∀ instruction ∈ instructions, instruction.Straight := by
  obtain ⟨_, _, stored, -, -, hstored, rfl⟩ := collectArguments_run h
  intro instruction hmem
  simp only [List.mem_cons] at hmem
  rcases hmem with rfl | rfl | hrest
  · exact Fragment.straight_int _
  · trivial
  · exact straight_storeArguments hstored instruction hrest

/-- **When static arguments are collected**: the last parameter is an array, unless there is an
argument for each parameter and the last one is such an array itself. -/
theorem areCollected_eq_ok {arguments : List Loadable} {parameters : List JavaType}
    {collected : Bool} (h : areCollected arguments parameters = .ok collected) :
    collected = true ↔ ∃ array ∈ parameters.getLast?, array.isArray = true ∧
      (arguments.length = parameters.length →
        ∀ last ∈ arguments.getLast?, last.type ≠ .ok array) := by
  unfold areCollected at h
  cases hlast : parameters.getLast? with
  | none =>
      rw [hlast] at h
      cases h
      simp
  | some array =>
      rw [hlast] at h
      simp only [Option.mem_some_iff, exists_eq_left']
      cases harray : array.isArray with
      | false =>
          simp only [harray, Bool.not_false, if_true, Except.ok.injEq] at h
          simp [← h]
      | true =>
          simp only [harray, Bool.not_true, Bool.false_eq_true, if_false] at h
          by_cases hlength : arguments.length = parameters.length
          · simp only [hlength, bne_self_eq_false, Bool.false_eq_true, if_false] at h
            cases hargument : arguments.getLast? with
            | none =>
                -- where there is a last parameter, there is a last argument as well
                rw [List.getLast?_eq_none_iff.mp hargument] at hlength
                rw [List.length_eq_zero_iff.mp hlength.symm] at hlast
                cases hlast
            | some last =>
                simp only [hargument, bind_eq_ok, pure_eq_ok] at h
                obtain ⟨type, htype, rfl⟩ := h
                simp [hlength, htype]
          · simp only [bne_iff_ne.mpr hlength, if_true, Except.ok.injEq] at h
            simp [← h, hlength]

/-- **Loading the static arguments.**  Without parameters nothing is loaded.  Otherwise there is one
argument for each parameter; or the last parameter is an array, in which all are collected for which
there is no other parameter. -/
theorem loadStatic_run {arguments : List Loadable} {parameters : List JavaType}
    {instructions : List Instruction}
    (h : loadStatic cls arguments parameters found = .ok (instructions, found')) :
    (parameters = [] ∧ instructions = [] ∧ found' = found) ∨
      (parameters ≠ [] ∧ areCollected arguments parameters = .ok false ∧
        arguments.length = parameters.length ∧
        loadArguments cls arguments parameters found = .ok (instructions, found')) ∨
      ∃ singles array loaded t collected, parameters = singles ++ [array] ∧
        areCollected arguments parameters = .ok true ∧ singles.length ≤ arguments.length ∧
        loadArguments cls arguments singles found = .ok (loaded, t) ∧
        collectArguments cls array (arguments.drop singles.length) t = .ok (collected, found') ∧
        instructions = loaded ++ collected := by
  unfold loadStatic at h
  simp only [work_bind_eq_ok, work_lift_eq_ok] at h
  obtain ⟨collected, _, ⟨hcollected, rfl⟩, h⟩ := h
  cases collected with
  | false =>
      simp only [Bool.false_eq_true, if_false, Bool.not_false, Bool.true_and] at h
      split at h
      · simp at h
      next hcount =>
        simp only [work_bind_eq_ok, List.take_length, List.getElem?_length, work_pure_eq_ok] at h
        obtain ⟨loaded, t, hloaded, rfl, rfl⟩ := h
        by_cases hnil : parameters = []
        · subst hnil
          cases arguments with
          | nil => exact .inl ⟨rfl, (work_pure_eq_ok.mp hloaded).imp Eq.symm Eq.symm⟩
          | cons => exact .inl ⟨rfl, (work_pure_eq_ok.mp hloaded).imp Eq.symm Eq.symm⟩
        · have hlength : arguments.length = parameters.length := by
            by_contra hne
            exact hcount (by simp [hne, hnil])
          exact .inr (.inl ⟨hnil, hcollected, hlength, hloaded⟩)
  | true =>
      obtain ⟨array, hlast, -⟩ := (areCollected_eq_ok hcollected).mp rfl
      obtain ⟨singles, rfl⟩ := List.getLast?_eq_some_iff.mp hlast
      have hsingle : (singles ++ [array]).length - 1 = singles.length := by simp
      simp only [if_true, Bool.not_true, Bool.false_and, Bool.or_false, hsingle] at h
      split at h
      · simp at h
      next hcount =>
        simp only [work_bind_eq_ok, List.take_left, List.getElem?_concat_length,
          work_pure_eq_ok] at h
        obtain ⟨loaded, t, hloaded, collected, t', hrest, rfl, rfl⟩ := h
        refine .inr (.inr ⟨singles, array, loaded, t, collected, rfl, hcollected, ?_, hloaded, hrest,
          rfl⟩)
        simpa using hcount

/-- Loading all static arguments is straight. -/
theorem straight_loadStatic {arguments : List Loadable} {parameters : List JavaType}
    {instructions : List Instruction}
    (h : loadStatic cls arguments parameters found = .ok (instructions, found')) :
    ∀ instruction ∈ instructions, instruction.Straight := by
  rcases loadStatic_run h with ⟨-, rfl, -⟩ | ⟨-, -, -, hloaded⟩ |
    ⟨_, _, _, _, _, -, -, -, hloaded, hcollected, rfl⟩
  · intro instruction hmem
    cases hmem
  · exact straight_loadArguments hloaded
  · intro instruction hmem
    rcases List.mem_append.mp hmem with hhere | hrest
    · exact straight_loadArguments hloaded instruction hhere
    · exact straight_collectArguments hcollected instruction hrest

/-- The parts of a call of a bootstrap method: what comes before the arguments, the leading and the
static ones, the call, and what makes the result a value of the type that is asked for. -/
theorem callBootstrap_run {bootstrap : Handle} {leading : Leading} {arguments : List Loadable}
    {result : JavaType} {instructions : List Instruction}
    (h : callBootstrap cls bootstrap leading arguments result found = .ok (instructions, found')) :
    ∃ parameters values first rest returned converted,
      bootstrap.parameterTypes = .ok parameters ∧ leading.values = .ok values ∧
      loadLeading values parameters = .ok first ∧
      loadStatic cls arguments (parameters.drop 3) found = .ok (rest, found') ∧
      bootstrap.resultType = .ok (some returned) ∧
      Fragment.adapt returned result = .ok converted ∧
      instructions = bootstrap.beforeArguments ++ first ++ rest ++ bootstrap.call :: converted := by
  unfold callBootstrap at h
  simp only [work_bind_eq_ok, work_lift_eq_ok] at h
  obtain ⟨parameters, _, ⟨hparameters, rfl⟩, values, _, ⟨hvalues, rfl⟩, first, _, ⟨hfirst, rfl⟩,
    rest, t, hrest, returned, _, ⟨hreturned, rfl⟩, h⟩ := h
  cases returned with
  | none => simp at h
  | some returned =>
      simp only [work_bind_eq_ok, work_lift_eq_ok, work_pure_eq_ok] at h
      obtain ⟨converted, _, ⟨hconverted, rfl⟩, rfl, rfl⟩ := h
      exact ⟨parameters, values, first, rest, returned, converted, hparameters, hvalues, hfirst,
        hrest, hreturned, hconverted, rfl⟩

/-- **Calling a bootstrap method is straight**, whatever its arguments are. -/
theorem straight_callBootstrap {bootstrap : Handle} {leading : Leading} {arguments : List Loadable}
    {result : JavaType} {instructions : List Instruction}
    (h : callBootstrap cls bootstrap leading arguments result found = .ok (instructions, found')) :
    ∀ instruction ∈ instructions, instruction.Straight := by
  obtain ⟨parameters, values, first, rest, returned, converted, -, hvalues, hfirst, hrest, -,
    hconverted, rfl⟩ := callBootstrap_run h
  intro instruction hmem
  simp only [List.append_assoc, List.mem_append, List.mem_cons] at hmem
  rcases hmem with hbefore | hlead | hstatic | rfl | hconv
  · exact (Handle.helps_beforeArguments hbefore).straight
  · exact (helps_loadLeading hfirst (helps_values hvalues) instruction hlead).straight
  · exact straight_loadStatic hrest instruction hstatic
  · exact Handle.straight_call bootstrap
  · exact (Fragment.helps_adapt hconverted instruction hconv).straight

/-- An accessor is direct if the computation in it is. -/
theorem direct_accessorPieces {name : String} {constant : Dynamic} {type : JavaType}
    {compute : List Instruction} (hcompute : ∀ instruction ∈ compute, instruction.Direct)
    {owner : ClassName} {instruction : Instruction}
    (h : .push instruction ∈ accessorPieces owner name constant type compute) :
    instruction.Direct := by
  simp only [accessorPieces, List.mem_append, Piece.push_mem_sequence, List.mem_cons,
    List.not_mem_nil, or_false, reduceCtorEq, or_assoc] at h
  rcases h with rfl | rfl | rfl | rfl | rfl | rfl | rfl | rfl | hhere | rfl | rfl | rfl | rfl |
    rfl | rfl | rfl | rfl | rfl | rfl | rfl | rfl | rfl | rfl | rfl | rfl
  all_goals first | trivial | exact hcompute _ hhere

/-- The code of an accessor is put together from its pieces, around a straight computation. -/
theorem accessorCode_run {name : String} {constant : Dynamic} {code : Code}
    (h : accessorCode cls name constant found = .ok (code, found')) :
    ∃ type compute, (∀ instruction ∈ compute, instruction.Straight) ∧
      code = Code.ofPieces (accessorPieces cls.name name constant type compute) := by
  unfold accessorCode at h
  simp only [work_bind_eq_ok, work_lift_eq_ok, work_pure_eq_ok] at h
  obtain ⟨type, _, ⟨_, rfl⟩, compute, t, hcompute, rfl, rfl⟩ := h
  exact ⟨type, compute, straight_callBootstrap hcompute, rfl⟩

/-- The code of an accessor is direct. -/
theorem direct_accessorCode {name : String} {constant : Dynamic} {code : Code}
    (h : accessorCode cls name constant found = .ok (code, found')) : code.All Direct := by
  obtain ⟨type, compute, hcompute, rfl⟩ := accessorCode_run h
  have hdirect : ∀ instruction ∈ compute, instruction.Direct := fun instruction hin =>
    (hcompute instruction hin).direct
  exact Code.all_direct_ofPieces fun instruction hmem => direct_accessorPieces hdirect hmem

/-- The code of a bouncer is a sequence of straight instructions. -/
theorem bouncerCode_run {bouncer : Bouncer} {code : Code}
    (h : bouncerCode cls bouncer found = .ok (code, found')) :
    ∃ instructions, (∀ instruction ∈ instructions, instruction.Straight) ∧
      code = Code.ofPieces (Piece.sequence instructions) := by
  unfold bouncerCode at h
  simp only [work_bind_eq_ok, work_pure_eq_ok] at h
  obtain ⟨call, t, hcall, rfl, rfl⟩ := h
  refine ⟨_, fun instruction hmem => ?_, rfl⟩
  rcases List.mem_append.mp hmem with hhere | hreturn
  · exact straight_callBootstrap hcall instruction hhere
  · rw [List.mem_singleton.mp hreturn]
    trivial

/-- The code of a bouncer is direct. -/
theorem direct_bouncerCode {bouncer : Bouncer} {code : Code}
    (h : bouncerCode cls bouncer found = .ok (code, found')) : code.All Direct := by
  obtain ⟨instructions, hstraight, rfl⟩ := bouncerCode_run h
  exact Code.all_direct_ofPieces fun instruction hmem =>
    (hstraight instruction (Piece.push_mem_sequence.mp hmem)).direct

/-- A bouncer is a method with the code of one. -/
theorem bouncerMethod_run {bouncer : Bouncer} {method : Method}
    (h : bouncerMethod cls bouncer found = .ok (method, found')) :
    ∃ code, bouncerCode cls bouncer found = .ok (code, found') ∧
      method = Method.ofCode cls.addedMethodAccess bouncer.name bouncerDescriptor code := by
  unfold bouncerMethod placed at h
  simp only [work_bind_eq_ok, work_pure_eq_ok, within_eq_ok] at h
  obtain ⟨code, _, hcode, rfl, rfl⟩ := h
  exact ⟨code, hcode, rfl⟩

/-- An accessor is a method with the code of one. -/
theorem accessorMethod_run {name : String} {constant : Dynamic} {method : Method}
    (h : accessorMethod cls name constant found = .ok (method, found')) :
    ∃ code, accessorCode cls name constant found = .ok (code, found') ∧
      method = Method.ofCode cls.addedMethodAccess name (accessorDescriptor constant) code := by
  unfold accessorMethod placed at h
  simp only [work_bind_eq_ok, work_pure_eq_ok, within_eq_ok] at h
  obtain ⟨code, _, hcode, rfl, rfl⟩ := h
  exact ⟨code, hcode, rfl⟩

/-- The search for accessors from an index on, without a bound.  There is no further entry; or the
next one is null and is passed over; or its accessor is written, which may add entries, and then
those of the others. -/
inductive Visits (cls : ClassFile) :
    Nat → Found → List (Method × List Field) → Found → Prop where
  | none {index : Nat} {found : Found} (hentry : found.entries[index]? = none) :
      Visits cls index found [] found
  | null {index : Nat} {found found' : Found} {constant : Dynamic}
      {accessors : List (Method × List Field)}
      (hentry : found.entries[index]? = some (constant, .null))
      (hrest : Visits cls (index + 1) found accessors found') :
      Visits cls index found accessors found'
  | accessor {index : Nat} {found between found' : Found} {constant : Dynamic} {name : String}
      {method : Method} {accessors : List (Method × List Field)}
      (hentry : found.entries[index]? = some (constant, .accessor name))
      (hmethod : accessorMethod cls name constant found = .ok (method, between))
      (hrest : Visits cls (index + 1) between accessors found') :
      Visits cls index found ((method, fieldsOf name constant) :: accessors) found'

/-- **Accessors are written as entries are visited**, whatever the bound. -/
theorem visits_of_accessorsFrom {bound index : Nat} {accessors : List (Method × List Field)}
    (h : accessorsFrom cls bound index found = .ok (accessors, found')) :
    Visits cls index found accessors found' := by
  induction bound generalizing index accessors found with
  | zero =>
      unfold accessorsFrom at h
      simp only [work_bind_eq_ok, work_get_eq_ok] at h
      obtain ⟨_, _, ⟨rfl, rfl⟩, h⟩ := h
      cases hentry : found.entries[index]? with
      | none =>
          simp only [hentry, work_pure_eq_ok] at h
          obtain ⟨rfl, rfl⟩ := h
          exact .none hentry
      | some entry => simp [hentry] at h
  | succ bound ih =>
      unfold accessorsFrom at h
      simp only [work_bind_eq_ok, work_get_eq_ok] at h
      obtain ⟨_, _, ⟨rfl, rfl⟩, h⟩ := h
      rcases hentry : found.entries[index]? with _ | ⟨constant, _ | name⟩
      · simp only [hentry, work_pure_eq_ok] at h
        obtain ⟨rfl, rfl⟩ := h
        exact .none hentry
      · simp only [hentry] at h
        exact .null hentry (ih h)
      · simp only [hentry, work_bind_eq_ok, work_pure_eq_ok] at h
        obtain ⟨method, t, hmethod, others, t', hothers, rfl, rfl⟩ := h
        exact .accessor hentry hmethod (ih hothers)

/-- Each of the accessors is the accessor of some constant. -/
theorem Visits.accessorMethod {index : Nat} {accessors : List (Method × List Field)}
    (h : Visits cls index found accessors found') :
    ∀ accessor ∈ accessors, ∃ name constant t t',
      Constants.accessorMethod cls name constant t = .ok (accessor.1, t') := by
  induction h with
  | none => exact List.forall_mem_nil _
  | null _ _ ih => exact ih
  | accessor _ hmethod _ ih => exact List.forall_mem_cons.mpr ⟨⟨_, _, _, _, hmethod⟩, ih⟩

/-- Creating a lock is straight. -/
theorem straight_createLock {owner : ClassName} {name : String} {instruction : Instruction}
    (h : instruction ∈ createLock owner name) : instruction.Straight := by
  rcases List.mem_append.mp h with hnew | hput
  · exact Fragment.straight_construct hnew
  · rw [List.mem_singleton.mp hput]
    trivial

end Generated

section Locks

variable {P : Instruction → Prop} {instructions : List Instruction}

/-- A method that starts with some more instructions has those and its own. -/
theorem startWith_holds {method method' : Method}
    (h : startWith instructions method = .ok method')
    (hnew : ∀ instruction ∈ instructions, P instruction) (hold : method.All P) :
    method'.All P := by
  unfold startWith at h
  simp only [bind_eq_ok, pure_eq_ok, orFail_eq_ok] at h
  obtain ⟨code, hcode, rfl⟩ := h
  intro code' hcode' entry hmem
  cases hcode'
  rcases List.mem_append.mp hmem with hfront | hback
  · obtain ⟨instruction, hinstruction, rfl⟩ := List.mem_map.mp hfront
    exact hnew instruction hinstruction
  · exact hold code hcode entry hback

/-- Methods of which one starts with some more instructions have those and their own. -/
theorem startFirst_holds (hdirect : ∀ instruction, instruction.Direct → P instruction)
    {methods methods' : List Method} (h : startFirst instructions methods = .ok methods')
    (hnew : ∀ instruction ∈ instructions, P instruction)
    (hold : ∀ method ∈ methods, method.All P) : ∀ method ∈ methods', method.All P := by
  induction methods generalizing methods' with
  | nil =>
      simp only [startFirst, bind_eq_ok, pure_eq_ok] at h
      obtain ⟨initializer, hstart, rfl⟩ := h
      intro method hmem
      rw [List.mem_singleton.mp hmem]
      refine startWith_holds hstart hnew (Method.all_ofCode.mpr fun entry hentry => ?_)
      rw [List.mem_singleton.mp hentry]
      exact hdirect _ trivial
  | cons first rest ih =>
      unfold startFirst at h
      split at h
      · simp only [bind_eq_ok, pure_eq_ok] at h
        obtain ⟨started, hstart, rfl⟩ := h
        intro method hmem
        rcases List.mem_cons.mp hmem with rfl | hrest
        · exact startWith_holds hstart hnew (hold first List.mem_cons_self)
        · exact hold method (List.mem_cons_of_mem _ hrest)
      · simp only [bind_eq_ok, pure_eq_ok] at h
        obtain ⟨others, hothers, rfl⟩ := h
        intro method hmem
        rcases List.mem_cons.mp hmem with rfl | hrest
        · exact hold method List.mem_cons_self
        · exact ih hothers (fun other hother => hold other (List.mem_cons_of_mem _ hother))
            method hrest

/-- Creating the locks adds direct instructions only. -/
theorem addLocks_holds (hdirect : ∀ instruction, instruction.Direct → P instruction)
    {owner : ClassName} {names : List String} {methods methods' : List Method}
    (h : addLocks owner names methods = .ok methods') (hold : ∀ method ∈ methods, method.All P) :
    ∀ method ∈ methods', method.All P := by
  unfold addLocks at h
  split at h
  · cases h
    exact hold
  · refine startFirst_holds hdirect h (fun instruction hmem => ?_) hold
    obtain ⟨name, _, hlock⟩ := List.mem_flatMap.mp hmem
    exact hdirect _ (straight_createLock hlock).direct

end Locks

section Lower

variable {cls : ClassFile} {lowered : Lowered}

/-- A run over a class: the run over its methods and, unless that met nothing, the members that are
added. -/
theorem dynamicConstants_run (h : Lower.dynamicConstants cls = .ok lowered) :
    ∃ replaced found,
      cls.methods.mapM (replaceMethod cls) ⟨[], NameSupply.ofClass cls⟩ = .ok (replaced, found) ∧
      ((found.entries = [] ∧ replaced.flatMap Prod.snd = [] ∧ lowered = Lowered.unchanged cls) ∨
        ∃ bouncers found₁ accessors found₂ methods,
          (replaced.flatMap Prod.snd).mapM (bouncerMethod cls) found = .ok (bouncers, found₁) ∧
          Visits cls 0 found₁ accessors found₂ ∧
          addLocks cls.name (accessorNames found₂.entries) (replaced.map Prod.fst) = .ok methods ∧
          checkInterface cls found.entries = .ok () ∧
          (found.entries ≠ [] ∨ replaced.flatMap Prod.snd ≠ []) ∧
          lowered = ⟨{ cls with
            fields := cls.fields ++ accessors.flatMap Prod.snd
            methods := methods ++ bouncers ++ accessors.map Prod.fst }, true⟩) := by
  unfold Lower.dynamicConstants at h
  simp only [bind_eq_ok, pure_eq_ok] at h
  obtain ⟨⟨outcome, last⟩, hlower, rfl⟩ := h
  unfold lower at hlower
  simp only [work_bind_eq_ok, work_get_eq_ok] at hlower
  obtain ⟨replaced, found, hrun, _, _, ⟨rfl, rfl⟩, h⟩ := hlower
  refine ⟨replaced, found, hrun, ?_⟩
  split at h
  · next hempty =>
      simp only [work_pure_eq_ok] at h
      simp only [Bool.and_eq_true, List.isEmpty_iff] at hempty
      exact .inl ⟨hempty.1, hempty.2, h.1.symm⟩
  · next hsome =>
      simp only [work_bind_eq_ok, work_get_eq_ok, work_lift_eq_ok, work_pure_eq_ok] at h
      obtain ⟨_, _, ⟨rfl, rfl⟩, _, _, ⟨hinterface, rfl⟩, bouncers, found₁, hbouncers, _, _,
        ⟨rfl, rfl⟩, accessors, found₂, haccessors, _, _, ⟨rfl, rfl⟩, methods, _, ⟨hlocks, rfl⟩,
        rfl, rfl⟩ := h
      refine .inr ⟨bouncers, found₁, accessors, found₂, methods, hbouncers,
        visits_of_accessorsFrom haccessors, hlocks, hinterface, ?_, rfl⟩
      simp only [Bool.and_eq_true, List.isEmpty_iff, not_and_or] at hsome
      exact hsome

/-- **Lowering constants keeps a property** of instructions that holds of what is direct, of what
uses no dynamic constants, and of the sites that are bound anew. -/
theorem dynamicConstants_all {P : Instruction → Prop}
    (h : Lower.dynamicConstants cls = .ok lowered)
    (hdirect : ∀ instruction, instruction.Direct → P instruction)
    (hbounced : ∀ site number, P (bounced cls site number))
    (hplain : cls.All fun instruction => Plain instruction → P instruction) :
    lowered.cls.All P := by
  obtain ⟨replaced, found, hrun, hcase⟩ := dynamicConstants_run h
  have hreplaced : ∀ method ∈ replaced.map Prod.fst, method.All P := by
    intro method' hmem
    obtain ⟨result, hresult, rfl⟩ := List.mem_map.mp hmem
    obtain ⟨method, hmethod, _, _, hstep⟩ := exists_left_of_forall₂ (work_mapM_forall₂ hrun) hresult
    exact replaceMethod_holds hdirect hbounced hstep (hplain method hmethod)
  rcases hcase with ⟨hentries, hbouncers, rfl⟩ |
    ⟨bouncers, found₁, accessors, found₂, methods, hbouncers, haccessors, hlocks, _, _, rfl⟩
  · -- Nothing was met, so everything in the class is plain already.
    have hquiet := work_mapM_quiet (fun found => found.entries = [])
      (fun method result => result.2 = [] → method.All Plain)
      (fun method _ t result t' hstep hnil => plain_of_entries_nil hstep hnil) hrun hentries
    intro method hmem code hcode entry hentry
    obtain ⟨result, hresult, hgood⟩ := exists_right_of_forall₂ hquiet.2 hmem
    have hmethod := hgood (List.flatMap_eq_nil_iff.mp hbouncers result hresult)
    exact hplain method hmem code hcode entry hentry (hmethod code hcode entry hentry)
  · have hmono : ∀ method : Method, method.All Direct → method.All P :=
      fun method hmethod code hcode => (hmethod code hcode).mono hdirect
    refine ClassFile.all_append rfl ?_ ?_
    · intro method hmem
      rcases List.mem_append.mp hmem with hold | hbouncer
      · exact addLocks_holds hdirect hlocks hreplaced method hold
      · obtain ⟨_, _, _, _, hstep⟩ :=
          exists_left_of_forall₂ (work_mapM_forall₂ hbouncers) hbouncer
        obtain ⟨code, hcode, rfl⟩ := bouncerMethod_run hstep
        exact hmono _ (Method.all_ofCode.mpr (direct_bouncerCode hcode))
    · intro method hmem
      obtain ⟨accessor, haccessor, rfl⟩ := List.mem_map.mp hmem
      obtain ⟨_, _, _, _, hstep⟩ := haccessors.accessorMethod accessor haccessor
      obtain ⟨code, hcode, heq⟩ := accessorMethod_run hstep
      exact heq ▸ hmono _ (Method.all_ofCode.mpr (direct_accessorCode hcode))

/-- A class that uses no dynamic constants is not changed. -/
theorem dynamicConstants_of_plain (h : cls.All Plain) :
    Lower.dynamicConstants cls = .ok (Lowered.unchanged cls) := by
  have hsame := work_mapM_of_pure cls.methods (f := replaceMethod cls)
    (g := fun method => (method, []))
    (fun method hmem => replaceMethod_of_plain (h method hmem)) ⟨[], NameSupply.ofClass cls⟩
  unfold Lower.dynamicConstants lower
  simp only [bind_eq_ok, pure_eq_ok]
  refine ⟨(Lowered.unchanged cls, ⟨[], NameSupply.ofClass cls⟩), ?_, rfl⟩
  simp only [work_bind_eq_ok, work_get_eq_ok]
  refine ⟨_, _, hsame, _, _, ⟨rfl, rfl⟩, ?_⟩
  simp

/-- If no change is told, the class used no dynamic constants. -/
theorem plain_of_unchanged (h : Lower.dynamicConstants cls = .ok lowered)
    (hunchanged : lowered.changed = false) : cls.All Plain := by
  have hplain := dynamicConstants_all (P := Plain) h (fun _ => Plain.of_direct)
    (plain_bounced cls) (fun _ _ _ _ _ _ hplain => hplain)
  obtain ⟨replaced, found, hrun, ⟨_, _, rfl⟩ | ⟨_, _, _, _, _, _, _, _, _, _, rfl⟩⟩ :=
    dynamicConstants_run h
  · exact hplain
  · cases hunchanged

/-- Lowering constants touches nothing but the fields and the methods. -/
theorem dynamicConstants_frame (h : Lower.dynamicConstants cls = .ok lowered) :
    ∃ fields methods, lowered.cls = { cls with fields := fields, methods := methods } := by
  obtain ⟨replaced, found, hrun, ⟨_, _, rfl⟩ | ⟨_, _, _, _, _, _, _, _, _, _, rfl⟩⟩ :=
    dynamicConstants_run h
  · exact ⟨cls.fields, cls.methods, rfl⟩
  · exact ⟨_, _, rfl⟩

end Lower

end Constants

end Downlevel
