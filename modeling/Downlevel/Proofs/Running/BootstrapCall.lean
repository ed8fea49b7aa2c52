import Downlevel.Proofs.Lower.Asked
import Downlevel.Proofs.Running.Tracing

/-!
# What bootstrap methods are called with

The code that calls a bootstrap method puts the leading arguments on the stack, as many as there are
parameters for, and behind them the static arguments, the surplus of which is collected in an array
if the last parameter is one.  Here the code is performed by the machine that keeps track of where
values come from, so that it can be seen what the method is called with.

* `ConvertsAll` — values converted one by one, each for its parameter;
* `Source` — where a static argument comes from;
* `Passes` — what is passed for static arguments, on the stack and in an array;
* `callBootstrap_passes` — a bootstrap method gets as many values as it has parameters, and among
  them each static argument once and in order, unless it has no parameters behind the leading ones.
-/

namespace Downlevel

open Tracing

namespace Constants

/-- Values, with their types, are converted one by one for parameters. -/
inductive ConvertsAll : List (JavaType × Origin) → List JavaType → List Origin → Prop where
  | nil : ConvertsAll [] [] []
  | cons {type parameter : JavaType} {origin converted : Origin}
      {values : List (JavaType × Origin)} {parameters : List JavaType} {rest : List Origin}
      (hfirst : Converts type parameter origin converted)
      (hrest : ConvertsAll values parameters rest) :
      ConvertsAll ((type, origin) :: values) (parameter :: parameters) (converted :: rest)

/-- There is one value for each parameter. -/
theorem ConvertsAll.length {values : List (JavaType × Origin)} {parameters : List JavaType}
    {converted : List Origin} (h : ConvertsAll values parameters converted) :
    values.length = parameters.length ∧ converted.length = parameters.length := by
  induction h with
  | nil => exact ⟨rfl, rfl⟩
  | cons _ _ ih => simp [ih]

/-- No value is created by being converted. -/
theorem ConvertsAll.not_created {values : List (JavaType × Origin)} {parameters : List JavaType}
    {converted : List Origin} (h : ConvertsAll values parameters converted)
    (hvalues : ∀ value ∈ values, ∀ number, value.2 ≠ .created number) :
    ∀ origin ∈ converted, ∀ number, origin ≠ .created number := by
  induction h with
  | nil => exact List.forall_mem_nil _
  | cons hfirst _ ih =>
      obtain ⟨hvalue, hrest⟩ := List.forall_mem_cons.mp hvalues
      exact List.forall_mem_cons.mpr ⟨hfirst.not_created hvalue, ih hrest⟩

/-! ## The leading arguments -/

/-- The class of a type. -/
def classOrigin (type : JavaType) : Origin :=
  match type.wrapper? with
  | some (cls, _) => .made (.field .getStatic ⟨cls, "TYPE", "Ljava/lang/Class;"⟩) []
  | none => .constant (.cls (type.internalName?.getD type.write))

/-- Where the leading arguments come from: the lookup, the name, and the type. -/
inductive Leads : Leading → List (JavaType × Origin) → Prop where
  | ofConstant {constant : Dynamic} {type : JavaType}
      (htype : JavaType.parse constant.descriptor = .ok type) :
      Leads (.ofConstant constant)
        [(.object ClassName.methodLookup,
            .made (.invokestatic ⟨"java/lang/invoke/MethodHandles", "lookup",
              "()Ljava/lang/invoke/MethodHandles$Lookup;"⟩ false) []),
          (.object ClassName.javaString, .constant (Loadable.ofText constant.name)),
          (.object ClassName.javaClass, classOrigin type)]
  | passedOn :
      Leads .passedOn
        [(.object ClassName.methodLookup, .variable 0), (.object ClassName.javaString, .variable 1),
          (.object ClassName.methodType, .variable 2)]

/-- None of the leading arguments was created. -/
theorem Leads.not_created {leading : Leading} {leads : List (JavaType × Origin)}
    (h : Leads leading leads) : ∀ lead ∈ leads, ∀ number, lead.2 ≠ .created number := by
  cases h with
  | ofConstant =>
      simp only [List.forall_mem_cons, List.not_mem_nil, false_imp_iff, implies_true, and_true]
      refine ⟨by simp, by simp, fun number => ?_⟩
      unfold classOrigin
      split <;> simp
  | passedOn => simp

/-- A static call or field that takes nothing puts its value. -/
theorem puts_of_traffic {instruction : Instruction} (htraffic : traffic? instruction = some (0, true))
    (hcall : ∀ state, perform instruction state = call instruction state)
    (hconstructed : ∀ objects, constructed? objects instruction [] = none) :
    Puts [instruction] [.made instruction []] := by
  intro stack objects
  have hcalled : call instruction ⟨stack, objects⟩ = some ⟨.made instruction [] :: stack, objects⟩ :=
    call_of_traffic htraffic (hconstructed objects) stack
  rw [run, hcall, hcalled]
  rfl

/-- The class of a type is put. -/
theorem puts_classOf (type : JavaType) : Puts [Fragment.classOf type] [classOrigin type] := by
  unfold Fragment.classOf classOrigin
  cases type.wrapper? with
  | some wrapper => exact puts_of_traffic rfl (fun _ => rfl) fun _ => rfl
  | none => exact puts_of_pushed rfl

/-- Each of the leading arguments is put by its instruction. -/
theorem leads_of_values {leading : Leading} {values : List (JavaType × Instruction)}
    (h : leading.values = .ok values) :
    ∃ leads, Leads leading leads ∧
      List.Forall₂ (fun value lead => value.1 = lead.1 ∧ Puts [value.2] [lead.2]) values leads := by
  cases leading with
  | ofConstant constant =>
      simp only [Leading.values, bind_eq_ok, pure_eq_ok] at h
      obtain ⟨type, htype, rfl⟩ := h
      have hlookup : MethodType.parse "()Ljava/lang/invoke/MethodHandles$Lookup;" =
          .ok ⟨[], some (.object ClassName.methodLookup)⟩ := by cbv
      have htraffic : traffic? (.invokestatic ⟨"java/lang/invoke/MethodHandles", "lookup",
          "()Ljava/lang/invoke/MethodHandles$Lookup;"⟩ false) = some (0, true) := by
        rw [traffic?, callTraffic?, hlookup]
        rfl
      exact ⟨_, .ofConstant htype,
        .cons ⟨rfl, puts_of_traffic htraffic (fun _ => rfl) fun _ => rfl⟩
          (.cons ⟨rfl, puts_of_pushed rfl⟩ (.cons ⟨rfl, puts_classOf type⟩ .nil))⟩
  | passedOn =>
      cases h
      exact ⟨_, .passedOn, .cons ⟨rfl, puts_of_pushed rfl⟩ (.cons ⟨rfl, puts_of_pushed rfl⟩
        (.cons ⟨rfl, puts_of_pushed rfl⟩ .nil))⟩

/-- **As many leading arguments are put as there are parameters for**, each converted. -/
theorem puts_loadLeading {values : List (JavaType × Instruction)}
    {leads : List (JavaType × Origin)}
    (hleads : List.Forall₂ (fun value lead => value.1 = lead.1 ∧ Puts [value.2] [lead.2])
      values leads)
    {parameters : List JavaType} {instructions : List Instruction}
    (h : loadLeading values parameters = .ok instructions) :
    ∃ converted, ConvertsAll (leads.take parameters.length) (parameters.take leads.length) converted ∧
      Puts instructions converted := by
  induction hleads generalizing parameters instructions with
  | nil =>
      cases h
      exact ⟨[], by simpa using ConvertsAll.nil, .nil⟩
  | @cons value lead values leads hfirst _ ih =>
      cases parameters with
      | nil =>
          cases h
          exact ⟨[], .nil, .nil⟩
      | cons parameter parameters =>
          simp only [loadLeading, bind_eq_ok, pure_eq_ok] at h
          obtain ⟨adapted, hadapted, others, hothers, rfl⟩ := h
          obtain ⟨rest, hconverts, hputs⟩ := ih hothers
          obtain ⟨first, hconvert, hreplaces⟩ := replaces_adapt hadapted lead.2
          rw [hfirst.1] at hconvert
          exact ⟨first :: rest, .cons hconvert hconverts, (hfirst.2.replace hreplaces).append hputs⟩

/-! ## Static arguments -/

/-- Where a static argument comes from when it is loaded: it is a constant; or it is a dynamic
constant, which is null, or what its accessor gives. -/
inductive LoadsAs (cls : ClassFile) (entries : List (Dynamic × Access)) :
    Loadable → Origin → Prop where
  | static {argument : Loadable} (hargument : dynamic? argument = none) :
      LoadsAs cls entries argument (.constant argument)
  | null {argument : Loadable} {constant : Dynamic} (hargument : dynamic? argument = some constant)
      (haccess : entries.lookup constant = some .null) : LoadsAs cls entries argument .null
  | accessor {argument : Loadable} {constant : Dynamic} {name : String}
      (hargument : dynamic? argument = some constant)
      (haccess : entries.lookup constant = some (.accessor name)) :
      LoadsAs cls entries argument
        (.made (.invokestatic ⟨cls.name, name, accessorDescriptor constant⟩ cls.access.isInterface)
          [])

/-- A static argument as a value: its type, and where it comes from. -/
structure Source (cls : ClassFile) (entries : List (Dynamic × Access)) (argument : Loadable)
    (value : JavaType × Origin) : Prop where
  type : argument.type = .ok value.1
  loads : LoadsAs cls entries argument value.2

section Static

variable {cls : ClassFile} {found found' : Found}

/-- Where an argument comes from is as said also where more constants are known. -/
theorem LoadsAs.stays {constants : List Dynamic} (hasks : found.Asks found' constants)
    {argument : Loadable} {origin : Origin} (h : LoadsAs cls found.entries argument origin) :
    LoadsAs cls found'.entries argument origin := by
  cases h with
  | static hargument => exact .static hargument
  | null hargument haccess => exact .null hargument (hasks.lookup haccess)
  | accessor hargument haccess => exact .accessor hargument (hasks.lookup haccess)

/-- What an argument is as a value is as said also where more constants are known. -/
theorem Source.stays {constants : List Dynamic} (hasks : found.Asks found' constants)
    {argument : Loadable} {value : JavaType × Origin} (h : Source cls found.entries argument value) :
    Source cls found'.entries argument value :=
  ⟨h.type, h.loads.stays hasks⟩

/-- A dynamic constant is of the type that its descriptor names. -/
theorem type_of_dynamic {argument : Loadable} {constant : Dynamic}
    (h : dynamic? argument = some constant) :
    argument.type = JavaType.parse constant.descriptor := by
  cases argument with
  | dynamic name descriptor bootstrap arguments =>
      cases h
      rfl
  | _ => cases h

/-- **One static argument** is put, converted for its parameter. -/
theorem puts_loadArgument {argument : Loadable} {parameter : JavaType}
    {instructions : List Instruction}
    (h : loadArgument cls argument parameter found = .ok (instructions, found')) :
    ∃ source converted, Source cls found'.entries argument source ∧
      Converts source.1 parameter source.2 converted ∧ Puts instructions [converted] := by
  unfold loadArgument at h
  cases hargument : dynamic? argument with
  | none =>
      simp only [hargument, work_bind_eq_ok, work_lift_eq_ok, work_pure_eq_ok] at h
      obtain ⟨_, _, ⟨rfl, rfl⟩, type, _, ⟨htype, rfl⟩, adapted, _, ⟨hadapted, rfl⟩, rfl, rfl⟩ := h
      obtain ⟨converted, hconvert, hreplaces⟩ := replaces_adapt hadapted (.constant argument)
      exact ⟨(type, _), converted, ⟨htype, .static hargument⟩, hconvert,
        (puts_of_pushed rfl).replace hreplaces⟩
  | some constant =>
      simp only [hargument, work_bind_eq_ok, work_lift_eq_ok, work_pure_eq_ok] at h
      obtain ⟨_, _, hload, type, _, ⟨htype, rfl⟩, adapted, _, ⟨hadapted, rfl⟩, rfl, rfl⟩ := h
      obtain ⟨-, access, haccess, rfl⟩ := load_asks hload
      cases access with
      | null =>
          obtain ⟨converted, hconvert, hreplaces⟩ := replaces_adapt hadapted .null
          exact ⟨(type, _), converted, ⟨htype, .null hargument haccess⟩, hconvert,
            (puts_of_pushed rfl).replace hreplaces⟩
      | accessor name =>
          have hparse : JavaType.parse constant.descriptor = .ok type :=
            (type_of_dynamic hargument).symm.trans htype
          have htraffic : traffic? (loadedBy cls constant (.accessor name)) = some (0, true) := by
            have hcall : traffic? (loadedBy cls constant (.accessor name)) =
              callTraffic? 0 ⟨cls.name, name, "()" ++ constant.descriptor⟩ := rfl
            rw [hcall, callTraffic?, parse_noParameters hparse]
            rfl
          obtain ⟨converted, hconvert, hreplaces⟩ :=
            replaces_adapt hadapted (.made (loadedBy cls constant (.accessor name)) [])
          exact ⟨(type, _), converted, ⟨htype, .accessor hargument haccess⟩, hconvert,
            (puts_of_traffic htraffic (fun _ => rfl) fun _ => rfl).replace hreplaces⟩

/-- **Static arguments for which there are parameters** are put in order. -/
theorem puts_loadArguments {arguments : List Loadable} {parameters : List JavaType}
    {instructions : List Instruction} (hlength : parameters.length ≤ arguments.length)
    (h : loadArguments cls arguments parameters found = .ok (instructions, found')) :
    ∃ sources converted,
      List.Forall₂ (Source cls found'.entries) (arguments.take parameters.length) sources ∧
        ConvertsAll sources parameters converted ∧ Puts instructions converted := by
  induction arguments generalizing parameters instructions found with
  | nil =>
      obtain ⟨rfl, -⟩ := work_pure_eq_ok.mp h
      obtain rfl := List.length_eq_zero_iff.mp (Nat.le_zero.mp hlength)
      exact ⟨[], [], .nil, .nil, .nil⟩
  | cons argument rest ih =>
      cases parameters with
      | nil =>
          obtain ⟨rfl, -⟩ := work_pure_eq_ok.mp h
          exact ⟨[], [], .nil, .nil, .nil⟩
      | cons parameter parameters =>
          simp only [loadArguments, work_bind_eq_ok, work_pure_eq_ok] at h
          obtain ⟨first, t, hfirst, others, t', hothers, rfl, rfl⟩ := h
          obtain ⟨source, converted, hsource, hconvert, hputs⟩ := puts_loadArgument hfirst
          obtain ⟨sources, values, hsources, hconverts, hputs'⟩ :=
            ih (Nat.le_of_succ_le_succ hlength) hothers
          exact ⟨source :: sources, converted :: values,
            .cons (hsource.stays (loadArguments_loads hothers).asks) hsources, .cons hconvert hconverts,
            hputs.append hputs'⟩

/-- Values as they are stored in an array, from an index on. -/
def storedFrom (index : Nat) (values : List Origin) : List (Int32 × Origin) :=
  (values.zipIdx index).map fun value => (Int32.ofNat value.2, value.1)

/-- An array on the stack, in which some more values are stored. -/
theorem run_storeArguments {element : JavaType} {index : Nat} {arguments : List Loadable}
    {instructions : List Instruction}
    (h : storeArguments cls element index arguments found = .ok (instructions, found')) :
    ∃ sources values, List.Forall₂ (Source cls found'.entries) arguments sources ∧
      ConvertsAll sources (List.replicate arguments.length element) values ∧
      ∀ (stack : List Origin) (objects : List Creation) (number : Nat) (name : ClassName)
        (length : Int32) (stored : List (Int32 × Origin)),
        objects[number]? = some (.array name length stored) →
          run instructions ⟨.created number :: stack, objects⟩ =
            some ⟨.created number :: stack,
              objects.set number (.array name length (stored ++ storedFrom index values))⟩ := by
  induction arguments generalizing index instructions found with
  | nil =>
      obtain ⟨rfl, -⟩ := work_pure_eq_ok.mp h
      refine ⟨[], [], .nil, .nil, fun stack objects number name length stored hobject => ?_⟩
      obtain ⟨hlt, hget⟩ := List.getElem?_eq_some_iff.mp hobject
      rw [storedFrom, List.zipIdx_nil, List.map_nil, List.append_nil, ← hget, List.set_getElem_self]
      rfl
  | cons argument rest ih =>
      simp only [storeArguments, work_bind_eq_ok, work_pure_eq_ok] at h
      obtain ⟨loaded, t, hloaded, others, t', hothers, rfl, rfl⟩ := h
      obtain ⟨source, converted, hsource, hconvert, hputs⟩ := puts_loadArgument hloaded
      obtain ⟨sources, values, hsources, hconverts, hrun⟩ := ih hothers
      refine ⟨source :: sources, converted :: values,
        .cons (hsource.stays (storeArguments_loads hothers).asks) hsources, .cons hconvert hconverts, ?_⟩
      intro stack objects number name length stored hobject
      -- the array again, the index and the value, which are stored then
      have hfront : run ([.op .dup] ++ ([Fragment.int (Int32.ofNat index)] ++ loaded))
          ⟨.created number :: stack, objects⟩ =
          some ⟨converted :: .constant (.int (Int32.ofNat index)) :: .created number ::
            .created number :: stack, objects⟩ := by
        rw [run_append]
        exact ((puts_int _).append hputs) (.created number :: .created number :: stack) objects
      have hstore : perform (.op .aastore)
          ⟨converted :: .constant (.int (Int32.ofNat index)) :: .created number ::
            .created number :: stack, objects⟩ =
          some ⟨.created number :: stack, objects.set number
            (.array name length (stored ++ [(Int32.ofNat index, converted)]))⟩ := by
        simp only [perform, pushed?, Running.number?, Option.map_none, hobject]
      have hset : (objects.set number
          (.array name length (stored ++ [(Int32.ofNat index, converted)])))[number]? =
          some (.array name length (stored ++ [(Int32.ofNat index, converted)])) := by
        rw [List.getElem?_set_self (List.getElem?_eq_some_iff.mp hobject).1]
      have hsplit : Instruction.op .dup :: Fragment.int (Int32.ofNat index) :: loaded ++
          .op .aastore :: others = ([.op .dup] ++ ([Fragment.int (Int32.ofNat index)] ++ loaded)) ++
            .op .aastore :: others := by simp
      rw [hsplit, run_append, hfront, Option.bind_some, run, hstore, Option.bind_some,
        hrun stack _ number name length _ hset, List.set_set, List.append_assoc]
      rfl

/-- **Arguments are collected in a new array**, in order. -/
theorem run_collectArguments {array : JavaType} {arguments : List Loadable}
    {instructions : List Instruction}
    (h : collectArguments cls array arguments found = .ok (instructions, found')) :
    ∃ element name sources values, array.element? = some element ∧
      element.internalName? = some name ∧
      List.Forall₂ (Source cls found'.entries) arguments sources ∧
      ConvertsAll sources (List.replicate arguments.length element) values ∧
      ∀ stack objects, run instructions ⟨stack, objects⟩ =
        some ⟨.created objects.length :: stack,
          objects ++ [.array name (Int32.ofNat arguments.length) (storedFrom 0 values)]⟩ := by
  obtain ⟨element, name, stored, helement, hname, hstored, rfl⟩ := collectArguments_run h
  obtain ⟨sources, values, hsources, hconverts, hrun⟩ := run_storeArguments hstored
  refine ⟨element, name, sources, values, helement, hname, hsources, hconverts, ?_⟩
  intro stack objects
  have hlength : run [Fragment.int (Int32.ofNat arguments.length)] ⟨stack, objects⟩ =
      some ⟨.constant (.int (Int32.ofNat arguments.length)) :: stack, objects⟩ :=
    puts_int _ stack objects
  have hnew : perform (.anewarray name)
      ⟨.constant (.int (Int32.ofNat arguments.length)) :: stack, objects⟩ =
      some ⟨.created objects.length :: stack,
        objects ++ [.array name (Int32.ofNat arguments.length) []]⟩ := rfl
  have hsplit : Fragment.int (Int32.ofNat arguments.length) :: .anewarray name :: stored =
      [Fragment.int (Int32.ofNat arguments.length)] ++ .anewarray name :: stored := rfl
  rw [hsplit, run_append, hlength, Option.bind_some, run, hnew, Option.bind_some,
    hrun stack _ objects.length name (Int32.ofNat arguments.length) []
      List.getElem?_concat_length]
  simp

/-- Whether values of some types are collected in an array for the last parameter: it is an array,
unless there is a value for each parameter and the last value is such an array itself. -/
def Collects (types parameters : List JavaType) : Prop :=
  ∃ array ∈ parameters.getLast?, array.isArray = true ∧
    (types.length = parameters.length → types.getLast? ≠ some array)

/-- Static arguments are collected as their types say. -/
theorem collects_iff {entries : List (Dynamic × Access)} {arguments : List Loadable}
    {sources : List (JavaType × Origin)}
    (hsources : List.Forall₂ (Source cls entries) arguments sources) {parameters : List JavaType}
    {collected : Bool} (h : areCollected arguments parameters = .ok collected) :
    collected = true ↔ Collects (sources.map Prod.fst) parameters := by
  have hlast : ∀ array : JavaType, (∀ last ∈ arguments.getLast?, last.type ≠ .ok array) ↔
      (sources.map Prod.fst).getLast? ≠ some array := by
    intro array
    rw [← List.head?_reverse, ← List.head?_reverse, ← List.map_reverse]
    have hreverse := List.forall₂_reverse_iff.mpr hsources
    generalize arguments.reverse = arguments' at hreverse ⊢
    generalize sources.reverse = sources' at hreverse ⊢
    cases hreverse with
    | nil => simp
    | cons hlast _ => simp [hlast.type]
  rw [areCollected_eq_ok h, Collects]
  simp only [hlast, List.length_map, hsources.length_eq]

/-- What is passed for static arguments: the values that are put on the stack, and the arrays that
are created for them, where `number` is that of the next object.  Either there is one value for each
parameter; or the last parameter is an array, which holds all for which there is no other one. -/
inductive Passes (sources : List (JavaType × Origin)) (parameters : List JavaType) (number : Nat) :
    List Origin → List Creation → Prop where
  | each {values : List Origin} (hsingle : ¬ Collects (sources.map Prod.fst) parameters)
      (hconverts : ConvertsAll sources parameters values) :
      Passes sources parameters number values []
  | collected {front surplus : List (JavaType × Origin)} {singles : List JavaType}
      {array element : JavaType} {name : ClassName} {values stored : List Origin}
      (hcollects : Collects (sources.map Prod.fst) parameters)
      (hsources : sources = front ++ surplus) (hparameters : parameters = singles ++ [array])
      (helement : array.element? = some element) (hname : element.internalName? = some name)
      (hfront : ConvertsAll front singles values)
      (hsurplus : ConvertsAll surplus (List.replicate surplus.length element) stored) :
      Passes sources parameters number (values ++ [.created number])
        [.array name (Int32.ofNat surplus.length) (storedFrom 0 stored)]

/-- As many values are passed as there are parameters. -/
theorem Passes.length {sources : List (JavaType × Origin)} {parameters : List JavaType}
    {number : Nat} {values : List Origin} {arrays : List Creation}
    (h : Passes sources parameters number values arrays) : values.length = parameters.length := by
  cases h with
  | each _ hconverts => exact hconverts.length.2
  | collected _ _ hparameters _ _ hfront _ => simp [hparameters, hfront.length.2]

/-- **The static arguments are passed**, all of them if there are parameters for any. -/
theorem run_loadStatic {arguments : List Loadable} {parameters : List JavaType}
    {instructions : List Instruction}
    (h : loadStatic cls arguments parameters found = .ok (instructions, found')) :
    ∃ sources,
      List.Forall₂ (Source cls found'.entries) (if parameters = [] then [] else arguments)
        sources ∧
      ∀ stack objects, ∃ values arrays, Passes sources parameters objects.length values arrays ∧
        run instructions ⟨stack, objects⟩ = some ⟨values.reverse ++ stack, objects ++ arrays⟩ := by
  rcases loadStatic_run h with ⟨rfl, rfl, rfl⟩ | ⟨hparameters, hcollected, hlength, hloaded⟩ |
    ⟨singles, array, loaded, t, collected, rfl, hcollected, hlength, hloaded, hcollect, rfl⟩
  · refine ⟨[], .nil, fun stack objects => ⟨[], [], .each ?_ .nil, ?_⟩⟩
    · simp [Collects]
    · rw [List.append_nil]
      rfl
  · obtain ⟨sources, values, hsources, hconverts, hputs⟩ :=
      puts_loadArguments (Nat.le_of_eq hlength.symm) hloaded
    rw [← hlength, List.take_length] at hsources
    rw [if_neg hparameters]
    have hsingle : ¬ Collects (sources.map Prod.fst) parameters := by
      rw [← collects_iff hsources hcollected]
      simp
    refine ⟨sources, hsources, fun stack objects => ⟨values, [], .each hsingle hconverts, ?_⟩⟩
    rw [List.append_nil]
    exact hputs stack objects
  · obtain ⟨front, values, hfront, hconverts, hputs⟩ := puts_loadArguments hlength hloaded
    obtain ⟨element, name, surplus, stored, helement, hname, hsurplus, hconverts', hrun⟩ :=
      run_collectArguments hcollect
    have hsources : List.Forall₂ (Source cls found'.entries) arguments (front ++ surplus) := by
      rw [← List.take_append_drop singles.length arguments]
      exact List.rel_append
        (hfront.imp fun _ _ hsource => hsource.stays (collectArguments_loads hcollect).asks) hsurplus
    rw [if_neg (by simp)]
    rw [hsurplus.length_eq] at hconverts' hrun
    have hcollects := (collects_iff hsources hcollected).mp rfl
    refine ⟨front ++ surplus, hsources, fun stack objects => ⟨values ++ [.created objects.length],
      _, .collected hcollects rfl rfl helement hname hconverts hconverts', ?_⟩⟩
    rw [run_append, hputs, Option.bind_some, hrun, List.reverse_append]
    rfl

end Static

/-! ## The call -/

/-- What a call through a handle gives: a constructor gives the object it was called on, anything
else what it makes of its operands. -/
def calledOrigin (bootstrap : Handle) (operands : List Origin) (number : Nat) : Origin :=
  match bootstrap with
  | .method .newSpecial _ => .created number
  | _ => .made bootstrap.call operands

/-- What a call through a handle creates, with what it is passed. -/
def calledObjects (bootstrap : Handle) (operands : List Origin) : List Creation :=
  match bootstrap with
  | .method .newSpecial target => [.object target operands]
  | _ => []

/-- The state in which the arguments of a call are loaded: the object on which a constructor is to be
called is there twice. -/
def started (bootstrap : Handle) (state : State) : State :=
  match bootstrap with
  | .method .newSpecial target =>
      ⟨.created state.objects.length :: .created state.objects.length :: state.stack,
        state.objects ++ [.fresh target.owner]⟩
  | _ => state

/-- What is created for the arguments comes behind the object on which a constructor is called. -/
theorem length_started (bootstrap : Handle) (stack : List Origin) (objects : List Creation)
    (operands : List Origin) : (started bootstrap ⟨stack, objects⟩).objects.length =
      (objects ++ calledObjects bootstrap operands).length := by
  rcases bootstrap with _ | ⟨_ | _ | _ | _ | _, _⟩ <;> simp [started, calledObjects]

/-- What comes before the arguments. -/
theorem run_beforeArguments (bootstrap : Handle) (state : State) :
    run bootstrap.beforeArguments state = some (started bootstrap state) := by
  rcases bootstrap with _ | ⟨_ | _ | _ | _ | _, _⟩ <;> rfl

/-- How many values a method call takes is read off its descriptor. -/
theorem callTraffic_of_parse (receivers : Nat) {target : MethodRef} {type : MethodType}
    {returned : JavaType} (hparse : MethodType.parse target.descriptor = .ok type)
    (hreturned : type.result = some returned) :
    callTraffic? receivers target = some (receivers + type.parameters.length, true) := by
  rw [callTraffic?, hparse]
  dsimp only
  rw [hreturned, Option.isSome_some]

/-- **A call takes one value for each parameter** of its handle, and leaves one. -/
theorem traffic_call {bootstrap : Handle} {parameters : List JavaType} {returned : JavaType}
    (hparameters : bootstrap.parameterTypes = .ok parameters)
    (hreturned : bootstrap.resultType = .ok (some returned))
    (hnew : ∀ target, bootstrap ≠ .method .newSpecial target) :
    traffic? bootstrap.call = some (parameters.length, true) := by
  cases bootstrap with
  | field use target =>
      cases use with
      | getField | getStatic =>
          cases hparameters
          rfl
      | putField | putStatic => cases hreturned
  | method use target =>
      cases use with
      | newSpecial => exact absurd rfl (hnew target)
      | static onInterface =>
          simp only [Handle.parameterTypes, Handle.resultType, bind_eq_ok, pure_eq_ok]
            at hparameters hreturned
          obtain ⟨type, hparse, rfl⟩ := hparameters
          obtain ⟨_, hparse', hresult⟩ := hreturned
          cases hparse.symm.trans hparse'
          have htraffic := callTraffic_of_parse 0 hparse hresult
          rwa [Nat.zero_add] at htraffic
      | virtual | special | interface =>
          simp only [Handle.parameterTypes, Handle.resultType, bind_eq_ok, pure_eq_ok]
            at hparameters hreturned
          obtain ⟨type, hparse, rfl⟩ := hparameters
          obtain ⟨_, hparse', hresult⟩ := hreturned
          cases hparse.symm.trans hparse'
          have htraffic := callTraffic_of_parse 1 hparse hresult
          rwa [Nat.add_comm] at htraffic

/-- A constructor takes its object and one value for each parameter. -/
theorem traffic_constructor {target : MethodRef} {parameters : List JavaType}
    (hparameters : (Handle.method .newSpecial target).parameterTypes = .ok parameters) :
    ∃ leaves, traffic? (Handle.method .newSpecial target).call =
      some (parameters.length + 1, leaves) := by
  simp only [Handle.parameterTypes, bind_eq_ok, pure_eq_ok] at hparameters
  obtain ⟨type, hparse, rfl⟩ := hparameters
  refine ⟨type.result.isSome, ?_⟩
  have hcall : traffic? (Handle.method .newSpecial target).call = callTraffic? 1 target := rfl
  rw [hcall, callTraffic?, hparse, Nat.add_comm]

/-- Nothing is constructed by a call whose first operand was not created. -/
theorem constructed_eq_none {objects : List Creation} {instruction : Instruction}
    {operands : List Origin} (h : ∀ number, operands.head? ≠ some (.created number)) :
    constructed? objects instruction operands = none := by
  unfold constructed?
  split
  · exact absurd rfl (h _)
  · rfl

/-- A call is performed as one. -/
theorem perform_call (bootstrap : Handle) (state : State) :
    perform bootstrap.call state = call bootstrap.call state := by
  rcases bootstrap with _ | ⟨_ | _ | _ | _ | _, _⟩ <;> rfl

/-- A call that is not one of a constructor works on what is there already and creates nothing. -/
theorem called_of_not_new {bootstrap : Handle}
    (h : ∀ target, bootstrap ≠ .method .newSpecial target) {state : State} {operands : List Origin}
    {number : Nat} :
    started bootstrap state = state ∧
      calledOrigin bootstrap operands number = .made bootstrap.call operands ∧
      calledObjects bootstrap operands = [] := by
  cases bootstrap with
  | field use target => exact ⟨rfl, rfl, rfl⟩
  | method use target =>
      cases use with
      | newSpecial => exact absurd rfl (h target)
      | _ => exact ⟨rfl, rfl, rfl⟩

/-- **The call with its arguments on the stack.**  They are taken, and the value is left. -/
theorem run_call {bootstrap : Handle} {parameters : List JavaType} {returned : JavaType}
    (hparameters : bootstrap.parameterTypes = .ok parameters)
    (hreturned : bootstrap.resultType = .ok (some returned)) {operands : List Origin}
    (hlength : operands.length = parameters.length)
    (hcreated : ∀ number, operands.head? ≠ some (.created number)) {arrays : List Creation}
    {loads : List Instruction} {stack : List Origin} {objects : List Creation}
    (hloads : run loads (started bootstrap ⟨stack, objects⟩) =
      some ⟨operands.reverse ++ (started bootstrap ⟨stack, objects⟩).stack,
        (started bootstrap ⟨stack, objects⟩).objects ++ arrays⟩) :
    run (bootstrap.beforeArguments ++ loads ++ [bootstrap.call]) ⟨stack, objects⟩ =
      some ⟨calledOrigin bootstrap operands objects.length :: stack,
        objects ++ calledObjects bootstrap operands ++ arrays⟩ := by
  rw [run_append, run_append, run_beforeArguments, Option.bind_some, hloads, Option.bind_some, run,
    perform_call]
  by_cases hnew : ∃ target, bootstrap = .method .newSpecial target
  · obtain ⟨target, rfl⟩ := hnew
    obtain ⟨leaves, htraffic⟩ := traffic_constructor hparameters
    rw [← hlength] at htraffic
    have hfresh : (objects ++ [Creation.fresh target.owner] ++ arrays)[objects.length]? =
        some (.fresh target.owner) := by simp
    have hcall := call_constructor htraffic hfresh (.created objects.length :: stack)
    have hset : (objects ++ [Creation.fresh target.owner] ++ arrays).set objects.length
        (.object target operands) = objects ++ [.object target operands] ++ arrays := by simp
    rw [hset] at hcall
    exact congrArg (·.bind (run [])) hcall
  · have hother : ∀ target, bootstrap ≠ .method .newSpecial target := fun target hsame =>
      hnew ⟨target, hsame⟩
    have htraffic := traffic_call hparameters hreturned hother
    rw [← hlength] at htraffic
    obtain ⟨hstarted, horigin, hobjects⟩ := called_of_not_new hother
    rw [hstarted, call_of_traffic htraffic (constructed_eq_none hcreated), horigin, hobjects,
      List.append_nil]
    rfl

/-- Whether so many static arguments can be passed for parameters: one for each, or, if the last one
is an array, any number for that. -/
def Takes (parameters : List JavaType) (count : Nat) : Prop :=
  count = parameters.length ∨
    (∃ array ∈ parameters.getLast?, array.isArray = true) ∧ parameters.length ≤ count + 1

/-- Where static arguments are loaded for parameters, these can take so many. -/
theorem takes_of_loadStatic {cls : ClassFile} {found found' : Found} {arguments : List Loadable}
    {parameters : List JavaType} {instructions : List Instruction} (hparameters : parameters ≠ [])
    (h : loadStatic cls arguments parameters found = .ok (instructions, found')) :
    Takes parameters arguments.length := by
  rcases loadStatic_run h with ⟨hnone, -, -⟩ | ⟨-, -, hlength, -⟩ |
    ⟨singles, array, _, _, _, rfl, hcollected, hlength, -, -, -⟩
  · exact absurd hnone hparameters
  · exact .inl hlength
  · obtain ⟨last, hlast, harray, -⟩ := (areCollected_eq_ok hcollected).mp rfl
    exact .inr ⟨⟨last, hlast, harray⟩, by simpa using hlength⟩

/-- What the parameters get first is nothing that was created, be it a leading argument or not. -/
theorem head_not_created {leading : Leading} {leads : List (JavaType × Origin)}
    {parameters : List JavaType} {first rest : List Origin} (hleads : Leads leading leads)
    (hconverts : ConvertsAll (leads.take parameters.length) (parameters.take 3) first)
    (hlength : (first ++ rest).length = parameters.length) (number : Nat) :
    (first ++ rest).head? ≠ some (.created number) := by
  intro hhead
  cases first with
  | nil =>
      -- without leading arguments there are no parameters at all
      have hnone : parameters.length = 0 := by
        have hshort := hconverts.length.2
        rw [List.length_take, List.length_nil] at hshort
        omega
      rw [hnone] at hlength
      rw [List.length_eq_zero_iff.mp hlength] at hhead
      cases hhead
  | cons lead others =>
      refine hconverts.not_created (fun value hvalue => ?_) lead List.mem_cons_self number
        (Option.some.inj hhead)
      exact hleads.not_created value (List.mem_of_mem_take hvalue)

/-- Where the parameters behind the leading ones cannot take the static arguments, there is no call. -/
theorem callBootstrap_refuses {cls : ClassFile} {bootstrap : Handle} {leading : Leading}
    {arguments : List Loadable} {result : JavaType} {found : Found} {parameters : List JavaType}
    (hparameters : bootstrap.parameterTypes = .ok parameters) (hlength : 3 < parameters.length)
    (hnot : ¬ Takes (parameters.drop 3) arguments.length) :
    ∃ error, callBootstrap cls bootstrap leading arguments result found = .error error := by
  cases h : callBootstrap cls bootstrap leading arguments result found with
  | error error => exact ⟨error, rfl⟩
  | ok outcome =>
      obtain ⟨parameters', _, _, _, _, _, hparameters', -, -, hrest, -, -, -⟩ :=
        callBootstrap_run h
      cases hparameters.symm.trans hparameters'
      have hsome : parameters.drop 3 ≠ [] := by
        rw [Ne, List.drop_eq_nil_iff]
        omega
      exact absurd (takes_of_loadStatic hsome hrest) hnot

/-- **What a bootstrap method is called with.**  Where its call succeeds, the code leaves nothing but
one value of the type that is asked for, converted from what the method gave.  The method was passed
one value for each of its parameters: of the lookup, the name and the type as many as it has
parameters for, and behind them each static argument once and in order, the surplus in an array.
But if it has no parameters behind the leading ones, it is called without the static arguments; only
where it has some, a number of arguments that these cannot take is an error. -/
theorem callBootstrap_passes (cls : ClassFile) (bootstrap : Handle) (leading : Leading)
    (arguments : List Loadable) (result : JavaType) (found : Found) :
    (∀ instructions found',
        callBootstrap cls bootstrap leading arguments result found =
            .ok (instructions, found') →
          ∃ parameters returned leads sources,
            bootstrap.parameterTypes = .ok parameters ∧
            bootstrap.resultType = .ok (some returned) ∧ Leads leading leads ∧
            List.Forall₂ (Source cls found'.entries)
              (if parameters.length ≤ 3 then [] else arguments) sources ∧
            ∀ stack objects, ∃ first rest arrays converted,
              ConvertsAll (leads.take parameters.length) (parameters.take 3) first ∧
              Passes sources (parameters.drop 3)
                (objects ++ calledObjects bootstrap (first ++ rest)).length rest arrays ∧
              (first ++ rest).length = parameters.length ∧
              Converts returned result (calledOrigin bootstrap (first ++ rest) objects.length)
                converted ∧
              run instructions ⟨stack, objects⟩ =
                some ⟨converted :: stack,
                  objects ++ calledObjects bootstrap (first ++ rest) ++ arrays⟩) ∧
      ∀ parameters, bootstrap.parameterTypes = .ok parameters → 3 < parameters.length →
        ¬ Takes (parameters.drop 3) arguments.length →
          ∃ error, callBootstrap cls bootstrap leading arguments result found = .error error := by
  constructor
  · intro instructions found' h
    obtain ⟨parameters, values, loadsFirst, loadsRest, returned, adapted, hparameters, hvalues,
      hfirst, hrest, hreturned, hadapted, rfl⟩ := callBootstrap_run h
    obtain ⟨leads, hleads, hputs⟩ := leads_of_values hvalues
    obtain ⟨first, hconverts, hputsFirst⟩ := puts_loadLeading hputs hfirst
    obtain ⟨sources, hsources, hrunRest⟩ := run_loadStatic hrest
    have hthree : leads.length = 3 := by cases hleads <;> rfl
    rw [hthree] at hconverts
    simp only [List.drop_eq_nil_iff] at hsources
    refine ⟨parameters, returned, leads, sources, hparameters, hreturned, hleads, hsources, ?_⟩
    intro stack objects
    obtain ⟨rest, arrays, hpasses, hrun⟩ := hrunRest
      (first.reverse ++ (started bootstrap ⟨stack, objects⟩).stack)
      (started bootstrap ⟨stack, objects⟩).objects
    have hlength : (first ++ rest).length = parameters.length := by
      rw [List.length_append, hconverts.length.2, hpasses.length, List.length_take,
        List.length_drop]
      omega
    have hloads : run (loadsFirst ++ loadsRest) (started bootstrap ⟨stack, objects⟩) =
        some ⟨(first ++ rest).reverse ++ (started bootstrap ⟨stack, objects⟩).stack,
          (started bootstrap ⟨stack, objects⟩).objects ++ arrays⟩ := by
      have hrunFirst : run loadsFirst (started bootstrap ⟨stack, objects⟩) =
          some ⟨first.reverse ++ (started bootstrap ⟨stack, objects⟩).stack,
            (started bootstrap ⟨stack, objects⟩).objects⟩ := hputsFirst _ _
      rw [run_append, hrunFirst, Option.bind_some, hrun, List.reverse_append, List.append_assoc]
    have hcall := run_call hparameters hreturned hlength
      (head_not_created hleads hconverts hlength) hloads
    obtain ⟨converted, hconvert, hreplaces⟩ := replaces_adapt hadapted
      (calledOrigin bootstrap (first ++ rest) objects.length)
    rw [length_started _ _ _ (first ++ rest)] at hpasses
    refine ⟨first, rest, arrays, converted, hconverts, hpasses, hlength, hconvert, ?_⟩
    have hsplit : bootstrap.beforeArguments ++ loadsFirst ++ loadsRest ++ bootstrap.call :: adapted =
        bootstrap.beforeArguments ++ (loadsFirst ++ loadsRest) ++ [bootstrap.call] ++ adapted := by
      simp
    rw [hsplit, run_append, hcall, Option.bind_some, hreplaces]
  · intro parameters hparameters hlength hnot
    exact callBootstrap_refuses hparameters hlength hnot

/-- A class of release 11 without members. -/
def memberless : ClassFile where
  version := ⟨55, 0⟩
  access := {}
  name := "a/A"
  superClass := some ClassName.javaObject
  interfaces := []

/-- A bootstrap method with some parameters behind the leading ones. -/
def bootstrapWith (parameters : String) : Handle :=
  .method (.static false) ⟨"a/B", "make",
    "(Ljava/lang/invoke/MethodHandles$Lookup;Ljava/lang/String;Ljava/lang/Class;" ++ parameters ++
      ")Ljava/lang/Object;"⟩

/-- The call of such a method for a constant with two numbers as static arguments. -/
def callWithNumbers (parameters : String) : Except Error (List Instruction × Found) :=
  callBootstrap memberless (bootstrapWith parameters)
    (.ofConstant ⟨"c", "Ljava/lang/Object;", bootstrapWith parameters, [.int 7, .int 8]⟩)
    [.int 7, .int 8] (.object ClassName.javaObject) ⟨[], ⟨∅⟩⟩

/-- Two numbers are collected for an array, and are too many for one number. -/
theorem callBootstrap_passes_numbers :
    (∃ instructions found' value objects,
      callWithNumbers "[Ljava/lang/Object;" = .ok (instructions, found') ∧
        run instructions ⟨[], []⟩ = some ⟨[value], objects⟩) ∧
      ∃ error, callWithNumbers "I" = .error error := by
  constructor
  · have hrun : ((callWithNumbers "[Ljava/lang/Object;").toOption.any fun _ => true) = true := by
      decide +kernel
    obtain ⟨⟨instructions, found'⟩, h, -⟩ := exists_of_any hrun
    obtain ⟨_, _, _, _, -, -, -, -, hall⟩ :=
      (callBootstrap_passes _ _ _ _ _ _).1 instructions found' h
    obtain ⟨_, _, _, value, -, -, -, -, hvalue⟩ := hall [] []
    exact ⟨instructions, found', value, _, h, hvalue⟩
  · refine (callBootstrap_passes _ _ _ _ _ _).2
      [.object ClassName.methodLookup, .object ClassName.javaString, .object ClassName.javaClass,
        .int] (by cbv) (by decide) ?_
    rintro (hcount | ⟨⟨array, hlast, harray⟩, -⟩)
    · cases hcount
    · cases hlast
      cases harray

/-- A bootstrap method without parameters behind the leading ones is called without the numbers that
it was to be given. -/
theorem callBootstrap_drops_numbers :
    ∃ instructions found', callWithNumbers "" = .ok (instructions, found') ∧
      .ldc (.int 7) ∉ instructions ∧ .ldc (.int 8) ∉ instructions := by
  have hrun : ((callWithNumbers "").toOption.any fun outcome =>
      decide (.ldc (.int 7) ∉ outcome.1 ∧ .ldc (.int 8) ∉ outcome.1)) = true := by decide +kernel
  obtain ⟨⟨instructions, found'⟩, h, hnone⟩ := exists_of_any hrun
  exact ⟨instructions, found', h, of_decide_eq_true hnone⟩

end Constants

end Downlevel
