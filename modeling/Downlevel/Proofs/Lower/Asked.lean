import Mathlib.Algebra.GroupWithZero.Nat
import Downlevel.Proofs.Lower.ConstantNames

/-!
# The constants that are asked for

Lowering goes through a class and asks for a constant wherever one is loaded, and it asks again
while it writes bouncers and accessors, which load the static arguments that they pass on.  This
file keeps the books: it says for every piece of the work which constants it asks for, and that
these and no others are known behind it, each of them once.

* `Found.Asks` — what asking for constants does to what was found;
* `LoadsIn` — which constants some code loads, `Found.Loads` — it does so for those asked for;
* `callBootstrap_loads` — calling a bootstrap method loads the constants that it is passed;
* `replaceMethods_asks`, `bouncerMethods_loads` — the methods of the class, and its bouncers;
* `Visits.asks`, `Visits.written` — the accessors: each entry is visited once, also those that are
  added on the way, and an accessor is written for each that is not null;
* `Visits.induction` — what is known behind the visit was there, or is passed to a known constant;
* `accessorsFrom_ends` — the bound on the number of accessors is never what ends the search.
-/

namespace Downlevel

namespace Constants

/-- The static arguments that a bootstrap method is called with.  One that takes nothing but leading
arguments is called without any. -/
def passed (bootstrap : Handle) (arguments : List Loadable) : List Loadable :=
  match bootstrap.parameterTypes with
  | .ok parameters => if parameters.length ≤ 3 then [] else arguments
  | .error _ => []

/-- The dynamic constants among the static arguments that a bootstrap method is called with. -/
def passedConstants (bootstrap : Handle) (arguments : List Loadable) : List Dynamic :=
  (passed bootstrap arguments).filterMap dynamic?

/-- How many constants there may be where some are known: they and all within them. -/
def weight (constants : List Dynamic) : Nat :=
  (constants.map fun constant => countInAll constant.arguments + 1).sum

/-- Constants are weighed one by one. -/
@[simp] theorem weight_cons (constant : Dynamic) (constants : List Dynamic) :
    weight (constant :: constants) = countInAll constant.arguments + 1 + weight constants := by
  simp [weight]

/-- Constants are weighed apart from others behind them. -/
@[simp] theorem weight_append (first rest : List Dynamic) :
    weight (first ++ rest) = weight first + weight rest := by
  simp [weight]

/-- The dynamic constants among values, with the first value apart. -/
theorem filterMap_dynamic_cons (argument : Loadable) (rest : List Loadable) :
    (argument :: rest).filterMap dynamic? =
      (dynamic? argument).toList ++ rest.filterMap dynamic? := by
  rw [List.filterMap_cons]
  cases dynamic? argument <;> rfl

/-- The constants within values are the dynamic ones among them and all within those. -/
theorem countInAll_eq_weight (values : List Loadable) :
    countInAll values = weight (values.filterMap dynamic?) := by
  induction values with
  | nil => rfl
  | cons value rest ih =>
      rw [countInAll, ih, filterMap_dynamic_cons, weight_append]
      cases value <;> rfl

/-- A bootstrap method is not passed more than there is. -/
theorem weight_passedConstants_le (bootstrap : Handle) (arguments : List Loadable) :
    weight (passedConstants bootstrap arguments) ≤ countInAll arguments := by
  have hnone : weight (([] : List Loadable).filterMap dynamic?) ≤ countInAll arguments :=
    Nat.zero_le _
  unfold passedConstants passed
  split
  · split
    · exact hnone
    · exact Nat.le_of_eq (countInAll_eq_weight arguments).symm
  · exact hnone

/-- The constants that are known. -/
def Found.known (found : Found) : List Dynamic :=
  found.entries.map Prod.fst

/-- The bound on the number of constants is what the known ones weigh. -/
theorem bound_eq_weight (found : Found) : bound found.entries = weight found.known := by
  have hfold : ∀ (entries : List (Dynamic × Access)) (start : Nat),
      entries.foldl (fun total entry => total + countInAll entry.1.arguments + 1) start =
        start + weight (entries.map Prod.fst) := by
    intro entries
    induction entries with
    | nil => intro start; rfl
    | cons entry rest ih =>
        intro start
        rw [List.foldl_cons, ih, List.map_cons, weight_cons]
        omega
  rw [bound, hfold, Nat.zero_add, Found.known]

/-- From one state of the work to another, constants were asked for: they are known from then on,
no others became known, and each is known once.  It is null exactly if its bootstrap method says
so. -/
structure Found.Asks (found found' : Found) (constants : List Dynamic) : Prop where
  grows : found.entries <+: found'.entries
  known : ∀ constant ∈ constants, constant ∈ found'.known
  only : ∀ entry ∈ found'.entries, entry ∈ found.entries ∨ entry.1 ∈ constants ∧
    (entry.2 = .null ↔ entry.1.bootstrap.isMethod nullBootstrap = true)
  distinct : found.known.Nodup → found'.known.Nodup
  weight_le : weight found'.known ≤ weight found.known + weight constants

namespace Found

variable {a b c found found' : Found} {first second constants : List Dynamic}

/-- How a constant is loaded is told by an entry. -/
theorem mem_of_lookup {constant : Dynamic} {access : Access}
    (h : found.entries.lookup constant = some access) : (constant, access) ∈ found.entries := by
  obtain ⟨front, back, hsplit, -⟩ := List.lookup_eq_some_iff.mp h
  rw [hsplit]
  exact List.mem_append_right _ List.mem_cons_self

/-- A constant is known exactly if it is told how it is loaded. -/
theorem mem_known {constant : Dynamic} :
    constant ∈ found.known ↔ ∃ access, (constant, access) ∈ found.entries := by
  simp [known]

namespace Asks

/-- Where nothing is asked for, nothing changes. -/
theorem refl (found : Found) : found.Asks found [] :=
  ⟨List.prefix_rfl, List.forall_mem_nil _, fun _ => .inl, id, Nat.le_refl _⟩

/-- What is known stays known. -/
theorem mem_known (h : a.Asks b constants) {constant : Dynamic} (hmem : constant ∈ a.known) :
    constant ∈ b.known :=
  (h.grows.map Prod.fst).subset hmem

/-- How a constant is loaded does not change. -/
theorem lookup (h : a.Asks b constants) {constant : Dynamic} {access : Access}
    (hlookup : a.entries.lookup constant = some access) :
    b.entries.lookup constant = some access := by
  obtain ⟨new, hnew⟩ := h.grows
  rw [← hnew, List.lookup_append, hlookup, Option.some_or]

/-- What is known was known or was asked for. -/
theorem mem_or (h : a.Asks b constants) {constant : Dynamic} (hmem : constant ∈ b.known) :
    constant ∈ a.known ∨ constant ∈ constants := by
  obtain ⟨access, hentry⟩ := Found.mem_known.mp hmem
  exact (h.only _ hentry).imp (List.mem_map_of_mem (f := Prod.fst)) And.left

/-- What was asked for first and what was asked for then. -/
theorem append (h : a.Asks b first) (h' : b.Asks c second) : a.Asks c (first ++ second) where
  grows := h.grows.trans h'.grows
  known constant hmem :=
    (List.mem_append.mp hmem).elim (fun hfirst => h'.mem_known (h.known constant hfirst))
      (h'.known constant)
  only entry hentry := by
    rcases h'.only entry hentry with hbefore | ⟨hsecond, hnull⟩
    · exact (h.only entry hbefore).imp_right fun hfirst =>
        ⟨List.mem_append_left _ hfirst.1, hfirst.2⟩
    · exact .inr ⟨List.mem_append_right _ hsecond, hnull⟩
  distinct hdistinct := h'.distinct (h.distinct hdistinct)
  weight_le := by
    have hfirst := h.weight_le
    have hsecond := h'.weight_le
    rw [weight_append]
    omega

end Asks

end Found

/-- The instruction that loads a constant. -/
def loadedBy (cls : ClassFile) (constant : Dynamic) : Access → Instruction
  | .null => .op .aconstNull
  | .accessor name =>
      .invokestatic ⟨cls.name, name, accessorDescriptor constant⟩ cls.access.isInterface

section Asks

variable {cls : ClassFile} {found found' : Found}

/-- A constant that was not met before becomes known. -/
theorem asks_of_new {constant : Dynamic} {access : Access} {names : NameSupply}
    (hunknown : found.entries.lookup constant = none)
    (hnull : access = .null ↔ constant.bootstrap.isMethod nullBootstrap = true) :
    found.Asks ⟨found.entries ++ [(constant, access)], names⟩ [constant] := by
  have hknown : Found.known ⟨found.entries ++ [(constant, access)], names⟩ =
      found.known ++ [constant] := by
    simp [Found.known]
  have hfresh : constant ∉ found.known := by
    intro hmem
    obtain ⟨access', hentry⟩ := Found.mem_known.mp hmem
    have hne := List.lookup_eq_none_iff.mp hunknown _ hentry
    simp at hne
  constructor
  · exact List.prefix_append _ _
  · simp [hknown]
  · intro entry hentry
    rcases List.mem_append.mp hentry with hold | hnew
    · exact .inl hold
    · rw [List.mem_singleton.mp hnew]
      exact .inr ⟨List.mem_singleton_self _, hnull⟩
  · intro hdistinct
    rw [hknown]
    exact List.nodup_append.mpr ⟨hdistinct, List.nodup_singleton _, fun known hmem other hother =>
      fun hsame => hfresh (List.mem_singleton.mp hother ▸ hsame ▸ hmem)⟩
  · rw [hknown, weight_append]

/-- **Asking for a constant**: it is known how to load it from then on. -/
theorem access_asks {constant : Dynamic} {access : Access}
    (h : Constants.access cls constant found = .ok (access, found')) :
    found.Asks found' [constant] ∧ found'.entries.lookup constant = some access := by
  rcases access_cases h with ⟨hknown, rfl⟩ | ⟨hunknown, hnull, -, rfl, rfl⟩ |
    ⟨hunknown, hnull, name, names, -, rfl, rfl⟩
  · refine ⟨⟨List.prefix_rfl, ?_, fun _ => .inl, id, Nat.le_add_right _ _⟩, hknown⟩
    intro other hmem
    rw [List.mem_singleton.mp hmem]
    exact Found.mem_known.mpr ⟨access, Found.mem_of_lookup hknown⟩
  · refine ⟨asks_of_new hunknown (by simp [hnull]), ?_⟩
    simp [List.lookup_append, hunknown]
  · refine ⟨asks_of_new hunknown (by simp [hnull]), ?_⟩
    simp [List.lookup_append, hunknown]

/-- Loading a constant asks for it. -/
theorem load_asks {constant : Dynamic} {instruction : Instruction}
    (h : load cls constant found = .ok (instruction, found')) :
    found.Asks found' [constant] ∧ ∃ access, found'.entries.lookup constant = some access ∧
      instruction = loadedBy cls constant access := by
  unfold load at h
  simp only [work_bind_eq_ok] at h
  obtain ⟨access, t, haccess, h⟩ := h
  obtain ⟨hasks, hlookup⟩ := access_asks haccess
  cases access with
  | null =>
      obtain ⟨rfl, rfl⟩ := work_pure_eq_ok.mp h
      exact ⟨hasks, .null, hlookup, rfl⟩
  | accessor name =>
      obtain ⟨rfl, rfl⟩ := work_pure_eq_ok.mp h
      exact ⟨hasks, .accessor name, hlookup, rfl⟩

/-- Which dynamic constants some code loads, one after the other: null or the accessor that the entry
of the constant tells of.  All other instructions help with values without loading any. -/
inductive LoadsIn (cls : ClassFile) (entries : List (Dynamic × Access)) :
    List Dynamic → List Instruction → Prop where
  | nil : LoadsIn cls entries [] []
  | load {constant : Dynamic} {access : Access} {constants : List Dynamic}
      {instructions : List Instruction} (haccess : entries.lookup constant = some access)
      (hrest : LoadsIn cls entries constants instructions) :
      LoadsIn cls entries (constant :: constants) (loadedBy cls constant access :: instructions)
  | other {instruction : Instruction} {constants : List Dynamic} {instructions : List Instruction}
      (hother : instruction.Helps) (hrest : LoadsIn cls entries constants instructions) :
      LoadsIn cls entries constants (instruction :: instructions)

namespace LoadsIn

variable {entries : List (Dynamic × Access)} {first rest : List Dynamic}
  {front back : List Instruction}

/-- What is loaded first and what is loaded then. -/
theorem append (h : LoadsIn cls entries first front) (h' : LoadsIn cls entries rest back) :
    LoadsIn cls entries (first ++ rest) (front ++ back) := by
  induction h with
  | nil => exact h'
  | load haccess _ ih => exact .load haccess ih
  | other hother _ ih => exact .other hother ih

/-- Helping instructions load nothing. -/
theorem of_helps (h : ∀ instruction ∈ front, instruction.Helps) : LoadsIn cls entries [] front := by
  induction front with
  | nil => exact .nil
  | cons instruction front ih =>
      obtain ⟨hfirst, hrest⟩ := List.forall_mem_cons.mp h
      exact .other hfirst (ih hrest)

/-- What code loads is as said also where more constants are known. -/
theorem stays {constants : List Dynamic} (hasks : found.Asks found' constants)
    (h : LoadsIn cls found.entries first front) : LoadsIn cls found'.entries first front := by
  induction h with
  | nil => exact .nil
  | load haccess _ ih => exact .load (hasks.lookup haccess) ih
  | other hother _ ih => exact .other hother ih

end LoadsIn

/-- From one state of the work to another, constants were asked for, and the code that was written
loads them. -/
structure Found.Loads (cls : ClassFile) (found found' : Found) (constants : List Dynamic)
    (instructions : List Instruction) : Prop where
  asks : found.Asks found' constants
  loads : LoadsIn cls found'.entries constants instructions

/-- What was asked for and loaded first, and what then. -/
theorem Found.Loads.append {a b c : Found} {first rest : List Dynamic}
    {front back : List Instruction} (h : a.Loads cls b first front) (h' : b.Loads cls c rest back) :
    a.Loads cls c (first ++ rest) (front ++ back) :=
  ⟨h.asks.append h'.asks, (h.loads.stays h'.asks).append h'.loads⟩

/-- Where nothing is loaded, nothing is asked for. -/
theorem Found.Loads.none (found : Found) : found.Loads cls found [] [] :=
  ⟨.refl found, .nil⟩

/-- A static argument is loaded, if it is a dynamic constant as one that is asked for. -/
theorem loadArgument_loads {argument : Loadable} {parameter : JavaType}
    {instructions : List Instruction}
    (h : loadArgument cls argument parameter found = .ok (instructions, found')) :
    found.Loads cls found' (dynamic? argument).toList instructions := by
  unfold loadArgument at h
  cases hargument : dynamic? argument with
  | some constant =>
      simp only [hargument, work_bind_eq_ok, work_lift_eq_ok, work_pure_eq_ok] at h
      obtain ⟨first, t, hfirst, type, _, ⟨_, rfl⟩, converted, _, ⟨hconverted, rfl⟩, rfl, rfl⟩ := h
      obtain ⟨hasks, access, haccess, rfl⟩ := load_asks hfirst
      exact ⟨hasks, .load haccess (.of_helps (Fragment.helps_adapt hconverted))⟩
  | none =>
      simp only [hargument, work_bind_eq_ok, work_lift_eq_ok, work_pure_eq_ok] at h
      obtain ⟨_, _, ⟨rfl, rfl⟩, type, _, ⟨_, rfl⟩, converted, _, ⟨hconverted, rfl⟩, rfl, rfl⟩ := h
      have hplain : (Instruction.ldc argument).Helps := hargument
      exact ⟨.refl found, .other hplain (.of_helps (Fragment.helps_adapt hconverted))⟩

/-- Static arguments are loaded as far as there are parameters for them. -/
theorem loadArguments_loads {arguments : List Loadable} {parameters : List JavaType}
    {instructions : List Instruction}
    (h : loadArguments cls arguments parameters found = .ok (instructions, found')) :
    found.Loads cls found' ((arguments.take parameters.length).filterMap dynamic?)
      instructions := by
  induction arguments generalizing parameters instructions found with
  | nil =>
      obtain ⟨rfl, rfl⟩ := work_pure_eq_ok.mp h
      rw [List.take_nil]
      exact .none found
  | cons argument rest ih =>
      cases parameters with
      | nil =>
          obtain ⟨rfl, rfl⟩ := work_pure_eq_ok.mp h
          exact .none found
      | cons parameter parameters =>
          simp only [loadArguments, work_bind_eq_ok, work_pure_eq_ok] at h
          obtain ⟨first, t, hfirst, others, t', hothers, rfl, rfl⟩ := h
          rw [List.length_cons, List.take_succ_cons, filterMap_dynamic_cons]
          exact (loadArgument_loads hfirst).append (ih hothers)

/-- All static arguments that are stored are loaded. -/
theorem storeArguments_loads {element : JavaType} {index : Nat} {arguments : List Loadable}
    {instructions : List Instruction}
    (h : storeArguments cls element index arguments found = .ok (instructions, found')) :
    found.Loads cls found' (arguments.filterMap dynamic?) instructions := by
  induction arguments generalizing index instructions found with
  | nil =>
      obtain ⟨rfl, rfl⟩ := work_pure_eq_ok.mp h
      exact .none found
  | cons argument rest ih =>
      simp only [storeArguments, work_bind_eq_ok, work_pure_eq_ok] at h
      obtain ⟨loaded, t, hloaded, others, t', hothers, rfl, rfl⟩ := h
      rw [filterMap_dynamic_cons]
      have hfirst := loadArgument_loads hloaded
      have hrest := ih hothers
      refine ⟨hfirst.asks.append hrest.asks, .other trivial (.other (Fragment.helps_int _) ?_)⟩
      exact (hfirst.loads.stays hrest.asks).append (.other trivial hrest.loads)

/-- All static arguments that are collected are loaded. -/
theorem collectArguments_loads {array : JavaType} {arguments : List Loadable}
    {instructions : List Instruction}
    (h : collectArguments cls array arguments found = .ok (instructions, found')) :
    found.Loads cls found' (arguments.filterMap dynamic?) instructions := by
  obtain ⟨_, _, _, -, -, hstored, rfl⟩ := collectArguments_run h
  have hloads := storeArguments_loads hstored
  exact ⟨hloads.asks, .other (Fragment.helps_int _) (.other trivial hloads.loads)⟩

/-- All static arguments are loaded, if there are parameters for any. -/
theorem loadStatic_loads {arguments : List Loadable} {parameters : List JavaType}
    {instructions : List Instruction}
    (h : loadStatic cls arguments parameters found = .ok (instructions, found')) :
    found.Loads cls found' ((if parameters = [] then [] else arguments).filterMap dynamic?)
      instructions := by
  rcases loadStatic_run h with ⟨rfl, rfl, rfl⟩ | ⟨hparameters, -, hlength, hloaded⟩ |
    ⟨singles, array, loaded, t, collected, rfl, -, -, hloaded, hcollected, rfl⟩
  · exact .none found'
  · rw [if_neg hparameters]
    have hloads := loadArguments_loads hloaded
    rwa [← hlength, List.take_length] at hloads
  · rw [if_neg (by simp), ← List.take_append_drop singles.length arguments, List.filterMap_append]
    refine (loadArguments_loads hloaded).append ?_
    exact collectArguments_loads hcollected

/-- Code that calls a bootstrap method: it loads the dynamic constants that the method is passed, and
behind the call it only makes a value of another type. -/
inductive CallsWith (cls : ClassFile) (entries : List (Dynamic × Access)) (bootstrap : Handle)
    (arguments : List Loadable) : List Instruction → Prop where
  | intro {loads converted : List Instruction}
      (hloads : LoadsIn cls entries (passedConstants bootstrap arguments) loads)
      (hconverted : ∀ instruction ∈ converted, instruction.Helps) :
      CallsWith cls entries bootstrap arguments (loads ++ bootstrap.call :: converted)

/-- What code is passed on is as said also where more constants are known. -/
theorem CallsWith.stays {constants : List Dynamic} (hasks : found.Asks found' constants)
    {bootstrap : Handle} {arguments : List Loadable} {instructions : List Instruction}
    (h : CallsWith cls found.entries bootstrap arguments instructions) :
    CallsWith cls found'.entries bootstrap arguments instructions := by
  cases h with
  | intro hloads hconverted => exact .intro (hloads.stays hasks) hconverted

/-- **Calling a bootstrap method asks for the constants that it is passed**, and loads them. -/
theorem callBootstrap_loads {bootstrap : Handle} {leading : Leading} {arguments : List Loadable}
    {result : JavaType} {instructions : List Instruction}
    (h : callBootstrap cls bootstrap leading arguments result found = .ok (instructions, found')) :
    found.Asks found' (passedConstants bootstrap arguments) ∧
      CallsWith cls found'.entries bootstrap arguments instructions := by
  obtain ⟨parameters, values, first, rest, returned, converted, hparameters, hvalues, hfirst, hrest,
    -, hconverted, rfl⟩ := callBootstrap_run h
  have hloads := loadStatic_loads hrest
  have hpassed : passedConstants bootstrap arguments =
      (if parameters.drop 3 = [] then [] else arguments).filterMap dynamic? := by
    simp only [passedConstants, passed, hparameters, List.drop_eq_nil_iff]
  rw [← hpassed] at hloads
  refine ⟨hloads.asks, .intro ?_ (Fragment.helps_adapt hconverted)⟩
  rw [List.append_assoc]
  refine .append (.of_helps fun _ => Handle.helps_beforeArguments) ?_
  exact .append (.of_helps (helps_loadLeading hfirst (helps_values hvalues))) hloads.loads

/-- The method of a bouncer: it passes on the arguments of its site, and returns what it gets. -/
def BouncerFor (cls : ClassFile) (entries : List (Dynamic × Access)) (bouncer : Bouncer)
    (method : Method) : Prop :=
  ∃ call, CallsWith cls entries bouncer.bootstrap bouncer.arguments call ∧
    method = Method.ofCode cls.addedMethodAccess bouncer.name bouncerDescriptor
      (Code.ofPieces (Piece.sequence (call ++ [.op .areturn])))

/-- The accessor of a constant: it computes the constant with the arguments of that, and keeps the
value. -/
def AccessorFor (cls : ClassFile) (entries : List (Dynamic × Access)) (constant : Dynamic)
    (name : String) (method : Method) : Prop :=
  ∃ type compute, JavaType.parse constant.descriptor = .ok type ∧
    CallsWith cls entries constant.bootstrap constant.arguments compute ∧
    method = Method.ofCode cls.addedMethodAccess name ("()" ++ constant.descriptor)
      (Code.ofPieces (accessorPieces cls.name name constant type compute))

/-- A bouncer asks for what it passes on, and loads it. -/
theorem bouncerMethod_loads {bouncer : Bouncer} {method : Method}
    (h : bouncerMethod cls bouncer found = .ok (method, found')) :
    found.Asks found' (passedConstants bouncer.bootstrap bouncer.arguments) ∧
      BouncerFor cls found'.entries bouncer method := by
  obtain ⟨code, hcode, rfl⟩ := bouncerMethod_run h
  unfold bouncerCode at hcode
  simp only [work_bind_eq_ok, work_pure_eq_ok] at hcode
  obtain ⟨call, t, hcall, rfl, rfl⟩ := hcode
  obtain ⟨hasks, hcalls⟩ := callBootstrap_loads hcall
  exact ⟨hasks, call, hcalls, rfl⟩

/-- An accessor asks for the constants within its own, and loads them. -/
theorem accessorMethod_loads {name : String} {constant : Dynamic} {method : Method}
    (h : accessorMethod cls name constant found = .ok (method, found')) :
    found.Asks found' (passedConstants constant.bootstrap constant.arguments) ∧
      AccessorFor cls found'.entries constant name method := by
  obtain ⟨code, hcode, rfl⟩ := accessorMethod_run h
  unfold accessorCode at hcode
  simp only [work_bind_eq_ok, work_lift_eq_ok, work_pure_eq_ok] at hcode
  obtain ⟨type, _, ⟨htype, rfl⟩, compute, t, hcompute, rfl, rfl⟩ := hcode
  obtain ⟨hasks, hcalls⟩ := callBootstrap_loads hcompute
  exact ⟨hasks, type, compute, htype, hcalls, rfl⟩

/-- A bouncer is as said also where more constants are known. -/
theorem BouncerFor.stays {constants : List Dynamic} (hasks : found.Asks found' constants)
    {bouncer : Bouncer} {method : Method} (h : BouncerFor cls found.entries bouncer method) :
    BouncerFor cls found'.entries bouncer method :=
  h.imp fun _ => .imp_left (.stays hasks)

/-- An accessor is as said also where more constants are known. -/
theorem AccessorFor.stays {constants : List Dynamic} (hasks : found.Asks found' constants)
    {constant : Dynamic} {name : String} {method : Method}
    (h : AccessorFor cls found.entries constant name method) :
    AccessorFor cls found'.entries constant name method := by
  obtain ⟨type, compute, htype, hcalls, hmethod⟩ := h
  exact ⟨type, compute, htype, hcalls.stays hasks, hmethod⟩

end Asks

/-! ## Going through the class -/

section Class

variable {cls : ClassFile} {found found' : Found}

/-- Where the work for every item asks for constants, going through the list asks for all of them.
What is then known about each item in terms of the entries is still so in the end. -/
theorem work_mapM_asks {α β : Type} {f : α → Work β} {asked : α → List Dynamic}
    {R : Found → α → β → Prop}
    (stays : ∀ {t t' constants item result}, t.Asks t' constants → R t item result →
      R t' item result)
    {items : List α}
    (step : ∀ item ∈ items, ∀ t result t', f item t = .ok (result, t') →
      t.Asks t' (asked item) ∧ R t' item result)
    {results : List β} (h : items.mapM f found = .ok (results, found')) :
    found.Asks found' (items.flatMap asked) ∧ List.Forall₂ (R found') items results := by
  induction items generalizing found results with
  | nil =>
      rw [List.mapM_nil] at h
      obtain ⟨rfl, rfl⟩ := work_pure_eq_ok.mp h
      exact ⟨.refl found, .nil⟩
  | cons item rest ih =>
      simp only [List.mapM_cons, work_bind_eq_ok, work_pure_eq_ok] at h
      obtain ⟨first, t, hfirst, others, t', hothers, rfl, rfl⟩ := h
      obtain ⟨hasks, hresult⟩ := step item List.mem_cons_self found first t hfirst
      obtain ⟨hrest, hresults⟩ :=
        ih (fun other hmem => step other (List.mem_cons_of_mem _ hmem)) hothers
      exact ⟨hasks.append hrest, .cons (stays hrest hresult) hresults⟩

/-- The dynamic constant that an instruction loads. -/
def loaded? : Instruction → Option Dynamic
  | .ldc value => dynamic? value
  | _ => none

/-- The dynamic call site that an instruction is, if it has dynamic constants among its static
arguments. -/
def dynamicSite? : Instruction → Option CallSite
  | .invokedynamic site =>
      if site.arguments.any fun argument => (dynamic? argument).isSome then some site else none
  | _ => none

/-- The instructions of a method. -/
def instructionsOf (method : Method) : List Instruction :=
  match method.code with
  | none => []
  | some code => code.instructions.map Labelled.instruction

/-- What becomes of an instruction, and what bouncer it needs: a constant is loaded as its entry
says, and a site with dynamic constants among its arguments is bound to a bouncer, which has its old
bootstrap method and its arguments. -/
inductive Replaces (cls : ClassFile) (entries : List (Dynamic × Access)) :
    Instruction → Instruction × Option Bouncer → Prop where
  | kept {instruction : Instruction} (hload : loaded? instruction = none)
      (hsite : dynamicSite? instruction = none) :
      Replaces cls entries instruction (instruction, none)
  | load {instruction : Instruction} {constant : Dynamic} {access : Access}
      (hload : loaded? instruction = some constant)
      (haccess : entries.lookup constant = some access) :
      Replaces cls entries instruction (loadedBy cls constant access, none)
  | bounce {instruction : Instruction} {site : CallSite} (name : MethodName)
      (hsite : dynamicSite? instruction = some site) :
      Replaces cls entries instruction
        (.invokedynamic { site with
            bootstrap := .method (.static cls.access.isInterface)
              ⟨cls.name, name, bouncerDescriptor⟩
            arguments := [] },
          some ⟨name, site.bootstrap, site.arguments⟩)

/-- What becomes of a method, and what bouncers it needs: only its instructions are replaced, where
they stand. -/
inductive ReplacesIn (cls : ClassFile) (entries : List (Dynamic × Access)) :
    Method → Method × List Bouncer → Prop where
  | bodiless {method : Method} (hcode : method.code = none) :
      ReplacesIn cls entries method (method, [])
  | code {method : Method} {code : Code} {results : List (Labelled × Option Bouncer)}
      (hcode : method.code = some code)
      (hresults : List.Forall₂ (fun entry result => result.1.label = entry.label ∧
        Replaces cls entries entry.instruction (result.1.instruction, result.2))
        code.instructions results) :
      ReplacesIn cls entries method
        ({ method with code := some { code with instructions := results.map Prod.fst } },
          results.filterMap Prod.snd)

/-- An instruction that uses no dynamic constants loads none. -/
theorem loaded_of_plain {instruction : Instruction} (h : Plain instruction) :
    loaded? instruction = none := by
  cases instruction <;> first | exact h | rfl

/-- A site that uses no dynamic constants has none among its arguments. -/
theorem dynamicSite_of_plain {instruction : Instruction} (h : Plain instruction) :
    dynamicSite? instruction = none := by
  cases instruction
  case invokedynamic site =>
    refine if_neg ?_
    rw [List.any_eq_true]
    rintro ⟨argument, hmem, hsome⟩
    rw [h argument hmem] at hsome
    cases hsome
  all_goals rfl

/-- A site that uses dynamic constants has some among its arguments. -/
theorem dynamicSite_of_not_plain {site : CallSite} (h : ¬ Plain (.invokedynamic site)) :
    dynamicSite? (.invokedynamic site) = some site := by
  refine if_pos ?_
  by_contra hnone
  refine h fun argument hmem => ?_
  by_contra hsome
  exact hnone (List.any_eq_true.mpr ⟨argument, hmem, Option.isSome_iff_ne_none.mpr hsome⟩)

/-- One instruction asks for the constant that it loads. -/
theorem replaceInstruction_asks {instruction : Instruction} {result : Instruction × Option Bouncer}
    (h : replaceInstruction cls instruction found = .ok (result, found')) :
    found.Asks found' (loaded? instruction).toList ∧
      Replaces cls found'.entries instruction result := by
  obtain ⟨instruction', bouncer⟩ := result
  rcases replaceInstruction_run h with ⟨hplain, rfl, rfl, rfl⟩ |
    ⟨value, constant, rfl, hvalue, hload, rfl⟩ | ⟨site, name, names, rfl, hsite, -, rfl, rfl, rfl⟩
  · rw [loaded_of_plain hplain]
    exact ⟨.refl found', .kept (loaded_of_plain hplain) (dynamicSite_of_plain hplain)⟩
  · obtain ⟨hasks, access, haccess, rfl⟩ := load_asks hload
    have hloaded : loaded? (.ldc value) = some constant := hvalue
    rw [hloaded]
    exact ⟨hasks, .load hloaded haccess⟩
  · exact ⟨⟨List.prefix_rfl, List.forall_mem_nil _, fun _ => .inl, id, Nat.le_refl _⟩,
      .bounce name (dynamicSite_of_not_plain hsite)⟩

/-- What an instruction was replaced by is as said also where more constants are known. -/
theorem Replaces.stays {constants : List Dynamic} (hasks : found.Asks found' constants)
    {instruction : Instruction} {result : Instruction × Option Bouncer}
    (h : Replaces cls found.entries instruction result) :
    Replaces cls found'.entries instruction result := by
  cases h with
  | kept hload hsite => exact .kept hload hsite
  | load hload haccess => exact .load hload (hasks.lookup haccess)
  | bounce name hsite => exact .bounce name hsite

/-- What a method was replaced by is as said also where more constants are known. -/
theorem ReplacesIn.stays {constants : List Dynamic} (hasks : found.Asks found' constants)
    {method : Method} {result : Method × List Bouncer}
    (h : ReplacesIn cls found.entries method result) :
    ReplacesIn cls found'.entries method result := by
  cases h with
  | bodiless hcode => exact .bodiless hcode
  | code hcode hresults =>
      exact .code hcode (hresults.imp fun _ _ hresult => hresult.imp_right (.stays hasks))

/-- One method asks for the constants that its code loads. -/
theorem replaceMethod_asks {method : Method} {result : Method × List Bouncer}
    (h : replaceMethod cls method found = .ok (result, found')) :
    found.Asks found' ((instructionsOf method).filterMap loaded?) ∧
      ReplacesIn cls found'.entries method result := by
  unfold replaceMethod at h
  unfold instructionsOf
  cases hcode : method.code with
  | none =>
      simp only [hcode, work_pure_eq_ok] at h
      obtain ⟨rfl, rfl⟩ := h
      exact ⟨.refl found, .bodiless hcode⟩
  | some code =>
      simp only [hcode, work_bind_eq_ok, work_pure_eq_ok, placed, within_eq_ok] at h
      obtain ⟨⟨code', bouncers⟩, t, hrun, rfl, rfl⟩ := h
      obtain ⟨results, hmap, rfl, rfl⟩ := replaceCode_run hrun
      obtain ⟨hasks, hresults⟩ := work_mapM_asks
        (R := fun t (entry : Labelled) (result : Labelled × Option Bouncer) =>
          result.1.label = entry.label ∧
            Replaces cls t.entries entry.instruction (result.1.instruction, result.2))
        (fun hasks hresult => ⟨hresult.1, hresult.2.stays hasks⟩)
        (fun entry _ t result t' hstep => by
          obtain ⟨hlabel, hinstruction⟩ := replaceEntry_eq_ok hstep
          obtain ⟨hasks, hreplaces⟩ := replaceInstruction_asks hinstruction
          exact ⟨hasks, hlabel, hreplaces⟩) hmap
      have hloads : (code.instructions.map Labelled.instruction).filterMap loaded? =
          code.instructions.flatMap fun entry => (loaded? entry.instruction).toList := by
        rw [List.filterMap_map, List.filterMap_eq_flatMap_toList]
        rfl
      exact ⟨hloads ▸ hasks, .code hcode hresults⟩

/-- All methods ask for the constants that their code loads. -/
theorem replaceMethods_asks {methods : List Method} {results : List (Method × List Bouncer)}
    (h : methods.mapM (replaceMethod cls) found = .ok (results, found')) :
    found.Asks found' ((methods.flatMap instructionsOf).filterMap loaded?) ∧
      List.Forall₂ (ReplacesIn cls found'.entries) methods results := by
  rw [List.filterMap_flatMap]
  exact work_mapM_asks (R := fun t => ReplacesIn cls t.entries) (fun hasks => .stays hasks)
    (fun _ _ _ _ _ hstep => replaceMethod_asks hstep) h

/-- The bouncers that an instruction needs have the bootstrap method and the arguments of the
site. -/
theorem Replaces.bouncer {entries : List (Dynamic × Access)} {instruction : Instruction}
    {result : Instruction × Option Bouncer} (h : Replaces cls entries instruction result) :
    result.2.map (fun bouncer => (bouncer.bootstrap, bouncer.arguments)) =
      (dynamicSite? instruction).map fun site => (site.bootstrap, site.arguments) := by
  cases h with
  | kept _ hsite => rw [hsite]; rfl
  | load hload _ =>
      have hsite : dynamicSite? instruction = none := by
        cases instruction <;> first | rfl | cases hload
      rw [hsite]
      rfl
  | bounce _ hsite => rw [hsite]; rfl

/-- The bouncers that a method needs are one for each site with dynamic constants among its
arguments. -/
theorem ReplacesIn.bouncers {entries : List (Dynamic × Access)} {method : Method}
    {result : Method × List Bouncer} (h : ReplacesIn cls entries method result) :
    result.2.map (fun bouncer => (bouncer.bootstrap, bouncer.arguments)) =
      ((instructionsOf method).filterMap dynamicSite?).map fun site =>
        (site.bootstrap, site.arguments) := by
  cases h with
  | bodiless hcode => simp [instructionsOf, hcode]
  | @code code results hcode hresults =>
      rw [instructionsOf, hcode]
      dsimp only
      clear hcode
      generalize code.instructions = entries at hresults
      rw [List.map_filterMap, List.map_filterMap, List.filterMap_map]
      induction hresults with
      | nil => rfl
      | cons hresult _ ih =>
          rw [List.filterMap_cons, List.filterMap_cons, ih, hresult.2.bouncer]
          rfl

/-- Bouncers ask for what they pass on, and load it. -/
theorem bouncerMethods_loads {bouncers : List Bouncer} {methods : List Method}
    (h : bouncers.mapM (bouncerMethod cls) found = .ok (methods, found')) :
    found.Asks found' (bouncers.flatMap fun bouncer =>
        passedConstants bouncer.bootstrap bouncer.arguments) ∧
      List.Forall₂ (BouncerFor cls found'.entries) bouncers methods :=
  work_mapM_asks (R := fun t => BouncerFor cls t.entries) (fun hasks => .stays hasks)
    (fun _ _ _ _ _ hstep => bouncerMethod_loads hstep) h

end Class

/-! ## Visiting the entries -/

section Accessors

variable {cls : ClassFile} {found found' : Found} {index : Nat}
  {accessors : List (Method × List Field)}

/-- The constants that have an accessor, with its name. -/
def bootstrapped (entries : List (Dynamic × Access)) : List (Dynamic × String) :=
  entries.filterMap fun entry =>
    match entry.2 with
    | .null => none
    | .accessor name => some (entry.1, name)

/-- The names of accessors are those of the constants that have one. -/
theorem accessorNames_eq (entries : List (Dynamic × Access)) :
    accessorNames entries = (bootstrapped entries).map Prod.snd := by
  rw [accessorNames, bootstrapped, List.map_filterMap]
  congr 1
  funext entry
  obtain ⟨constant, access⟩ := entry
  cases access <;> rfl

/-- Visiting entries adds entries behind the others. -/
theorem Visits.grows (h : Visits cls index found accessors found') :
    found.entries <+: found'.entries := by
  induction h with
  | none => exact List.prefix_rfl
  | null _ _ ih => exact ih
  | accessor _ hmethod _ ih => exact (accessorMethod_loads hmethod).1.grows.trans ih

/-- **Visiting entries asks for the constants within those visited.** -/
theorem Visits.asks (h : Visits cls index found accessors found') :
    found.Asks found' ((bootstrapped (found'.entries.drop index)).flatMap fun entry =>
      passedConstants entry.1.bootstrap entry.1.arguments) := by
  induction h with
  | none hentry =>
      rw [List.drop_eq_nil_of_le (List.getElem?_eq_none_iff.mp hentry)]
      exact .refl _
  | null hentry hrest ih =>
      rw [drop_of_grown hentry hrest.grows]
      exact ih
  | accessor hentry hmethod hrest ih =>
      rw [drop_of_grown hentry ((accessorMethod_loads hmethod).1.grows.trans hrest.grows)]
      exact (accessorMethod_loads hmethod).1.append ih

/-- **Each entry is visited once**: there is one accessor, with its fields, for each entry that needs
one, in their order. -/
theorem Visits.written (h : Visits cls index found accessors found') :
    List.Forall₂ (fun entry accessor =>
        AccessorFor cls found'.entries entry.1 entry.2 accessor.1 ∧
          accessor.2 = fieldsOf entry.2 entry.1)
      (bootstrapped (found'.entries.drop index)) accessors := by
  induction h with
  | none hentry =>
      rw [List.drop_eq_nil_of_le (List.getElem?_eq_none_iff.mp hentry)]
      exact .nil
  | null hentry hrest ih =>
      rw [drop_of_grown hentry hrest.grows]
      exact ih
  | accessor hentry hmethod hrest ih =>
      rw [drop_of_grown hentry ((accessorMethod_loads hmethod).1.grows.trans hrest.grows)]
      exact .cons ⟨(accessorMethod_loads hmethod).2.stays hrest.asks, rfl⟩ ih

/-- What holds of the known constants, and with a constant that is not null of those that its
bootstrap method is passed, holds of all constants that are known when the entries were visited. -/
theorem Visits.induction {P : Dynamic → Prop}
    (hclosed : ∀ constant, P constant → constant.bootstrap.isMethod nullBootstrap = false →
      ∀ inner ∈ passedConstants constant.bootstrap constant.arguments, P inner)
    (h : Visits cls index found accessors found')
    (hnull : ∀ entry ∈ found.entries,
      (entry.2 = .null ↔ entry.1.bootstrap.isMethod nullBootstrap = true))
    (hknown : ∀ constant ∈ found.known, P constant) : ∀ constant ∈ found'.known, P constant := by
  induction h with
  | none => exact hknown
  | null _ _ ih => exact ih hnull hknown
  | @accessor index found between _ constant name _ _ hentry hmethod _ ih =>
      have hmem := List.mem_of_getElem? hentry
      have hasks := (accessorMethod_loads hmethod).1
      have hbootstrap : constant.bootstrap.isMethod nullBootstrap = false := by
        simpa using (hnull _ hmem).symm
      refine ih (fun entry hin => ?_) fun other hin => ?_
      · exact (hasks.only entry hin).elim (hnull entry) And.right
      · exact (hasks.mem_or hin).elim (hknown other)
          (hclosed constant (hknown constant (List.mem_map_of_mem hmem)) hbootstrap other)

/-- An error that was seen from a place around it is not that of a search without an end. -/
theorem placed_ne_endless {α : Type} {fault : LowerFault} (hfault : fault ≠ .endlessSearch)
    {work : Work α} : placed fault work found ≠ .error (Error.of (.lower .endlessSearch)) := by
  unfold placed
  cases work found with
  | ok value => exact fun h => by cases h
  | error error =>
      intro h
      simp only [within, Error.within, Error.of, Except.error.injEq, Error.mk.injEq, List.cons.injEq,
        Fault.lower.injEq] at h
      exact hfault h.1

/-- What is known weighs as much as there are entries, or more. -/
theorem length_le_weight (constants : List Dynamic) : constants.length ≤ weight constants := by
  induction constants with
  | nil => exact Nat.le_refl 0
  | cons constant rest ih =>
      rw [List.length_cons, weight_cons]
      omega

/-- Visiting an entry makes what is left to visit lighter, as the constants that it adds are all
within its own. -/
theorem weight_drop_lt {between : Found} {constant : Dynamic} {access : Access}
    {inner : List Dynamic} (hentry : found.entries[index]? = some (constant, access))
    (hasks : found.Asks between inner) (hinner : weight inner ≤ countInAll constant.arguments) :
    weight (between.known.drop (index + 1)) < weight (found.known.drop index) := by
  obtain ⟨new, hnew⟩ := hasks.grows
  have hknown : between.known = found.known ++ new.map Prod.fst := by
    rw [Found.known, Found.known, ← hnew, List.map_append]
  have hhere : found.known[index]? = some constant := by
    rw [Found.known, List.getElem?_map, hentry]
    rfl
  have hlt : index < found.known.length := (List.getElem?_eq_some_iff.mp hhere).1
  have hdrop := drop_of_grown hhere List.prefix_rfl
  have hweight := hasks.weight_le
  rw [hknown, weight_append] at hweight
  rw [hknown, List.drop_append_of_le_length (by omega), hdrop, weight_append, weight_cons]
  omega

/-- **The search for accessors ends by itself.**  What is left to visit gets lighter with every
entry, and the bound was what all of it weighs. -/
theorem accessorsFrom_ends {bound : Nat} (hbound : weight (found.known.drop index) ≤ bound) :
    accessorsFrom cls bound index found ≠ .error (Error.of (.lower .endlessSearch)) := by
  induction bound generalizing index found with
  | zero =>
      have hlength := (length_le_weight (found.known.drop index)).trans hbound
      have hnone : found.entries[index]? = none := by
        refine List.getElem?_eq_none ?_
        rw [List.length_drop, Found.known, List.length_map] at hlength
        omega
      intro h
      unfold accessorsFrom at h
      simp only [work_bind_eq_error, work_get_ne_error, work_get_eq_ok, false_or] at h
      obtain ⟨_, _, ⟨rfl, rfl⟩, h⟩ := h
      simp [hnone] at h
  | succ bound ih =>
      intro h
      unfold accessorsFrom at h
      simp only [work_bind_eq_error, work_get_ne_error, work_get_eq_ok, false_or] at h
      obtain ⟨_, _, ⟨rfl, rfl⟩, h⟩ := h
      rcases hentry : found.entries[index]? with _ | ⟨constant, _ | name⟩
      · simp [hentry] at h
      · simp only [hentry] at h
        have hlighter := weight_drop_lt hentry (.refl found) (Nat.zero_le _)
        exact ih (by omega) h
      · simp only [hentry, work_bind_eq_error, work_pure_ne_error, and_false, exists_false,
          or_false] at h
        rcases h with hmethod | ⟨method, t, hmethod, hrest⟩
        · unfold accessorMethod at hmethod
          simp only [work_bind_eq_error, work_pure_ne_error, and_false, exists_false,
            or_false] at hmethod
          exact placed_ne_endless (by simp) hmethod
        · have hlighter := weight_drop_lt hentry (accessorMethod_loads hmethod).1
            (weight_passedConstants_le _ _)
          exact ih (by omega) hrest

end Accessors

end Constants

end Downlevel
