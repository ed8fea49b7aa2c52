import Downlevel.Proofs.Lower.Instructions
import Downlevel.Proofs.Renaming.Code
import Downlevel.Proofs.RoundTrip.Member

/-!
# Methods that are written and read again

The attributes of a method are treated as those of a field are, but for its code.  Code comes back
with other labels and sizes, so what is read again is the method with that code in place of its own
(`Method.Rereads`).  Whether any instruction of the code is replaced can be told as soon as the
writer has laid the code out; `methodContext` goes so far.

* `gives_method` — what is known of a method that was read;
* `method_reads` — such a method, if it is written without replacing any instruction, is read again,
  and what is read is written with the same bytes.
-/

namespace Downlevel

namespace Encode

open Pool PoolM Parse

section Counting

variable {table : Table} {bootstraps : Array Bootstrap} {length : UInt16}

/-- An instruction with a wide slot is no call site. -/
theorem counted_wide : Gives Decode.wide Instruction.Counted := by
  refine .after fun opcode => ?_
  repeat' split
  all_goals first
    | exact gives_refuse _
    | exact .after fun _ => gives_pure trivial
    | exact .after fun _ => .after fun _ => gives_pure trivial

/-- A jump through a table is no call site. -/
theorem counted_tableswitch (position : Nat) :
    Gives (Decode.tableswitch length position) Instruction.Counted := by
  refine .after fun _ => .after fun _ => .after fun _ => .after fun _ => ?_
  split
  · exact gives_refuse _
  · exact .after fun _ => gives_pure trivial

/-- A jump by keys is no call site. -/
theorem counted_lookupswitch (position : Nat) :
    Gives (Decode.lookupswitch length position) Instruction.Counted := by
  refine .after fun _ => .after fun _ => .after fun _ => ?_
  split
  · exact gives_refuse _
  · exact .after fun _ => gives_pure trivial

variable (hbootstraps : ∀ bootstrap ∈ bootstraps, bootstrap.arguments.length < 65536)

include hbootstraps

/-- A call site that is looked up has as many arguments as its bootstrap method. -/
theorem counted_callSite {index : UInt16} {site : CallSite}
    (h : table.callSite bootstraps index = .ok site) : site.arguments.length < 65536 := by
  obtain ⟨found, -, h⟩ := bind_eq_ok.mp h
  split at h
  case h_2 => cases h
  case h_1 =>
    obtain ⟨id, -, h⟩ := bind_eq_ok.mp h
    obtain ⟨⟨handle, arguments⟩, hbootstrap, h⟩ := bind_eq_ok.mp h
    obtain rfl := pure_eq_ok.mp h
    unfold Table.bootstrapWith at hbootstrap
    split at hbootstrap
    case h_2 => cases hbootstrap
    case h_1 bootstrap hget =>
      simp only [bind_eq_ok, pure_eq_ok, Prod.mk.injEq] at hbootstrap
      obtain ⟨values, hvalues, -, rfl⟩ := hbootstrap
      rw [← (mapM_eq_ok_forall₂ hvalues).length_eq]
      exact hbootstraps bootstrap (Array.mem_of_getElem? hget)

/-- Every instruction that refers to the pool is counted. -/
theorem counted_poolInstruction {opcode : UInt8} {read : Parse Instruction}
    (h : Decode.poolInstruction? table bootstraps opcode = some read) :
    Gives read Instruction.Counted := by
  unfold Decode.poolInstruction? at h
  split at h <;> cases h
  case h_12 =>
    exact .after fun _ => .look fun _ hsite => .after fun _ =>
      gives_pure (counted_callSite hbootstraps hsite)
  all_goals first
    | exact .after fun _ => .look fun _ _ => gives_pure trivial
    | exact .after fun _ => .look fun _ _ => .after fun _ => gives_pure trivial
    | exact .after fun _ => .look fun _ _ => .after fun _ => .after fun _ => gives_pure trivial

/-- Every instruction that is read is counted. -/
theorem counted_instruction (position : Nat) :
    Gives (Decode.instruction table bootstraps length position) Instruction.Counted := by
  refine .after fun opcode => ?_
  unfold Decode.operands
  cases Op.ofOpcode? opcode with
  | some op => exact gives_pure trivial
  | none =>
  cases Condition.ofOpcode? opcode with
  | some condition => exact .after fun _ => gives_pure trivial
  | none =>
  cases hpool : Decode.poolInstruction? table bootstraps opcode with
  | some read => exact counted_poolInstruction hbootstraps hpool
  | none =>
  simp only
  repeat' split
  case h_9 => exact counted_tableswitch position
  case h_10 => exact counted_lookupswitch position
  case h_11 =>
    refine .after fun code => ?_
    split
    · exact gives_pure trivial
    · exact gives_refuse _
  case h_12 => exact counted_wide
  all_goals first
    | exact gives_pure trivial
    | exact gives_refuse _
    | exact .after fun _ => gives_pure trivial
    | exact .after fun _ => .after fun _ => gives_pure trivial

/-- All code that is read is counted. -/
theorem counted_code : Gives (Decode.code table bootstraps) Code.Counted := by
  refine .after fun maxStack => .after fun maxLocals => .after fun size => ?_
  split
  · exact gives_refuse _
  · refine (gives_take _).bind fun bytes hbytes => .look fun instructions hinstructions => ?_
    obtain ⟨-, hall⟩ := Decode.instructions_spec (counted_instruction hbootstraps)
      (by rw [hbytes]; exact size.toUInt16.toNat_lt) hinstructions
    refine .after fun exceptions => .after fun tables => gives_lift fun code hcode => ?_
    simp only [Decode.numberLabels] at hcode
    split at hcode
    case isFalse => cases hcode
    case isTrue =>
      cases hcode
      exact List.forall_mem_map.mpr fun one hone => (hall one hone).2.mapLabels _

end Counting

section Reading

/-- Reading an attribute of a method. -/
abbrev methodStep (constants : Constants) : String → Nat → Method → Parse Method :=
  Decode.methodAttribute constants.table constants.bootstraps

/-- Adding an attribute to a method that is kept as it is. -/
def addToMethod (method : Method) (other : RawAttribute) : Method :=
  { method with attributes := method.attributes ++ [other] }

/-- A method that a reader can give. -/
structure KeptMethod (method : Method) : Prop where
  name : Name.isValid .methodName method.name
  descriptor : Name.isValid .methodDescriptor method.descriptor
  code : ∀ code, method.code = some code → KeptCode code ∧ code.Counted
  exceptions : ∀ classes, method.exceptions = some classes →
    ∀ cls ∈ classes, Name.isValid .className cls
  annots : KeptAnnots method.annots
  visible : ∀ items, method.visibleParameterAnnots = some items →
    ∀ annots ∈ items, ∀ a ∈ annots, KeptAnnot a
  invisible : ∀ items, method.invisibleParameterAnnots = some items →
    ∀ annots ∈ items, ∀ a ∈ annots, KeptAnnot a
  default : ∀ value, method.defaultValue = some value → KeptValue value
  attributes : ∀ one ∈ method.attributes, IsRaw methodStep addToMethod one.name

/-- Every list of classes that is read has proper names only. -/
theorem gives_classes (table : Table) :
    Gives (Decode.classes table) fun names => ∀ cls ∈ names, Name.isValid .className cls :=
  gives_listOf (.after fun _ => gives_lift fun _ hname => Table.cls_valid hname)

/-- Every list of annotations for each parameter that is read has kept ones only. -/
theorem gives_parameterAnnots (table : Table) :
    Gives (Decode.parameterAnnots table) fun items =>
      ∀ annots ∈ items, ∀ a ∈ annots, KeptAnnot a :=
  gives_shortListOf (gives_annots table)

/-- A bootstrap method that a reader can give. -/
structure KeptBootstrap (bootstrap : Bootstrap) : Prop where
  handle : bootstrap.handle.Valid
  arguments : bootstrap.arguments.length < 65536

variable {table : Table} {bootstraps : Array Bootstrap}
  (hbootstraps : ∀ bootstrap ∈ bootstraps, KeptBootstrap bootstrap)

include hbootstraps

/-- Every attribute of a method keeps what a reader promises. -/
theorem gives_methodAttribute (name : String) (size : Nat) {method : Method}
    (h : KeptMethod method) :
    Gives (Decode.methodAttribute table bootstraps name size method) KeptMethod := by
  unfold Decode.methodAttribute
  cases hannots : Decode.annotAttribute? table name method.annots with
  | some read =>
      refine (gives_annotAttribute hannots h.annots).bind fun annots hnew => ?_
      exact gives_pure { h with annots := hnew }
  | none =>
      simp only
      split
      case h_1 => exact gives_pure { h with }
      case h_2 => exact gives_pure { h with }
      case h_3 =>
        have hcode : Gives (Decode.code table bootstraps) fun code => KeptCode code ∧ code.Counted :=
          (gives_code fun one hone => (hbootstraps one hone).handle).and
            (counted_code fun one hone => (hbootstraps one hone).arguments)
        refine (hcode.within _).bind fun code hnew => gives_once ?_
        exact gives_pure { h with code := by rintro _ ⟨⟩; exact hnew }
      case h_4 =>
        refine (gives_classes table).bind fun classes hnew => gives_once ?_
        exact gives_pure { h with exceptions := by rintro _ ⟨⟩; exact hnew }
      case h_5 => exact .after fun _ => .look fun _ _ => .look fun _ _ => gives_pure { h with }
      case h_6 =>
        refine (gives_parameterAnnots table).bind fun items hnew => gives_once ?_
        exact gives_pure { h with visible := by rintro _ ⟨⟩; exact hnew }
      case h_7 =>
        refine (gives_parameterAnnots table).bind fun items hnew => gives_once ?_
        exact gives_pure { h with invisible := by rintro _ ⟨⟩; exact hnew }
      case h_8 =>
        refine (gives_elementValue table).bind fun value hnew => gives_once ?_
        exact gives_pure { h with default := by rintro _ ⟨⟩; exact hnew }
      case h_9 => exact .after fun _ => .look fun _ _ => gives_pure { h with }
      case h_10 =>
        have hraw : IsRaw methodStep addToMethod name := by
          intro constants size value
          simp only [methodStep, Decode.methodAttribute, annotAttribute?_eq_none hannots]
          rfl
        refine (gives_raw name size).bind ?_
        rintro other rfl
        exact gives_pure { h with attributes := isRaw_append h.attributes hraw }

/-- **Every method that is read is one that a reader can give.** -/
theorem gives_method : Gives (Decode.method table bootstraps) KeptMethod := by
  refine .after fun bits => .after fun _ => .look fun name hname => ?_
  refine .after fun _ => .look fun descriptor hdescriptor => .after fun count => ?_
  refine gives_iterate (fun method h => ?_) count.toNat
    { name := Table.named_valid hname
      descriptor := Table.named_valid hdescriptor
      code := by rintro _ ⟨⟩
      exceptions := by rintro _ ⟨⟩
      annots := keptAnnots_empty
      visible := by rintro _ ⟨⟩
      invisible := by rintro _ ⟨⟩
      default := by rintro _ ⟨⟩
      attributes := fun one hmem => by cases hmem }
  exact .after fun _ => .look fun name _ => .after fun size =>
    gives_methodAttribute hbootstraps name size.toNat h

end Reading

end Encode

/-- Code as it may come back from its bytes: with one other label for each, other sizes, and without
an empty table of local variables. -/
def Code.Rereads (code code' : Code) : Prop :=
  ∃ f maxStack maxLocals, Set.InjOn f {label | label ∈ code.labels} ∧
    code' = Encode.reread f maxStack maxLocals code

/-- A method as it may come back from its bytes: with code that came back. -/
def Method.Rereads (method method' : Method) : Prop :=
  ∃ code', Option.Rel Code.Rereads method.code code' ∧ method' = { method with code := code' }

namespace Encode

open Pool PoolM Parse

section Contexts

variable {σ : Type} (supers : SuperClasses σ) (computeFrames : Bool) (cls : ClassName)

/-- How the code of a method is laid out when it is written. -/
def codeContext (method : Method) (code : Code) : Emit σ Context := do
  let locals ← (maxLocals method code : Except Error UInt16)
  let (_, frames) ← (analysis supers computeFrames cls method code locals : Task σ _)
  let found ← (items code.instructions : PoolM (List (Option Label × CodeItem)))
  let layout ← (Layout.ofItems found code.lastLabel : Except Error Layout)
  return ⟨code, layout, frames⟩

/-- How the code of a method is laid out, if it has any, when the method is written. -/
def methodContext (method : Method) : Emit σ (Option Context) := do
  let _ ← (indexed (PoolM.utf8 method.name) : PoolM Bytes)
  let _ ← (indexed (PoolM.utf8 method.descriptor) : PoolM Bytes)
  let _ ← (present (markers method.isDeprecated method.isSynthetic) : PoolM (List Bytes))
  match method.code with
  | none => return none
  | some code => return some (← codeContext supers computeFrames cls method code)

variable {supers computeFrames cls} {method : Method} {pool pool' : Builder} {s s' : σ}
  {context : Context}

/-- The parts that make up how code is laid out. -/
theorem codeContext_run {code : Code} :
    codeContext supers computeFrames cls method code pool s = (.ok (context, pool'), s') ↔
      ∃ locals maxStack frames found layout, maxLocals method code = .ok locals ∧
        analysis supers computeFrames cls method code locals s = (.ok (maxStack, frames), s') ∧
        items code.instructions pool = .ok (found, pool') ∧
        Layout.ofItems found code.lastLabel = .ok layout ∧ context = ⟨code, layout, frames⟩ := by
  simp only [codeContext, emit_bind_eq_ok, emit_lift_eq_ok, emit_task_eq_ok, emit_pool_eq_ok,
    emit_pure_eq_ok]
  constructor
  · rintro ⟨locals, _, _, ⟨hlocals, rfl, rfl⟩, ⟨maxStack, frames⟩, _, _, ⟨hanalysis, rfl⟩, found, _,
      _, ⟨hfound, rfl⟩, layout, _, _, ⟨hlayout, rfl, rfl⟩, rfl, rfl, rfl⟩
    exact ⟨locals, maxStack, frames, found, layout, hlocals, hanalysis, hfound, hlayout, rfl⟩
  · rintro ⟨locals, maxStack, frames, found, layout, hlocals, hanalysis, hfound, hlayout, rfl⟩
    exact ⟨locals, _, _, ⟨hlocals, rfl, rfl⟩, (maxStack, frames), _, _, ⟨hanalysis, rfl⟩, found, _,
      _, ⟨hfound, rfl⟩, layout, _, _, ⟨hlayout, rfl, rfl⟩, rfl, rfl, rfl⟩

/-- Code is laid out behind the names and the marks of its method. -/
theorem methodContext_run :
    methodContext supers computeFrames cls method pool s = (.ok (some context, pool'), s') ↔
      ∃ code name pool₁ descriptor pool₂ marks pool₃, method.code = some code ∧
        indexed (PoolM.utf8 method.name) pool = .ok (name, pool₁) ∧
        indexed (PoolM.utf8 method.descriptor) pool₁ = .ok (descriptor, pool₂) ∧
        present (markers method.isDeprecated method.isSynthetic) pool₂ = .ok (marks, pool₃) ∧
        codeContext supers computeFrames cls method code pool₃ s = (.ok (context, pool'), s') := by
  unfold methodContext
  simp only [emit_bind_eq_ok, emit_pool_eq_ok]
  constructor
  · rintro ⟨name, pool₁, _, ⟨hname, rfl⟩, descriptor, pool₂, _, ⟨hdescriptor, rfl⟩, marks, pool₃, _,
      ⟨hmarks, rfl⟩, hcode⟩
    cases hheld : method.code with
    | none =>
        simp only [hheld, emit_pure_eq_ok] at hcode
        obtain ⟨hnone, -, -⟩ := hcode
        cases hnone
    | some code =>
        simp only [hheld, emit_bind_eq_ok, emit_pure_eq_ok] at hcode
        obtain ⟨found, _, _, hfound, heq, rfl, rfl⟩ := hcode
        cases heq
        exact ⟨code, name, pool₁, descriptor, pool₂, marks, pool₃, rfl, hname, hdescriptor, hmarks,
          hfound⟩
  · rintro ⟨code, name, pool₁, descriptor, pool₂, marks, pool₃, hheld, hname, hdescriptor, hmarks,
      hcode⟩
    simp only [hheld, emit_bind_eq_ok, emit_pure_eq_ok]
    exact ⟨name, pool₁, s, ⟨hname, rfl⟩, descriptor, pool₂, s, ⟨hdescriptor, rfl⟩, marks, pool₃, s,
      ⟨hmarks, rfl⟩, context, pool', s', hcode, rfl, rfl, rfl⟩

variable (supers computeFrames cls)

/-- No instruction of a method is replaced when it is written with these states. -/
def PlainMethod (method : Method) (pool : Builder) (s : σ) : Prop :=
  ∀ context pool' s', methodContext supers computeFrames cls method pool s =
    (.ok (some context, pool'), s') → context.Plain

end Contexts

section Writing

/-- Adding attributes that are kept as they are adds them all. -/
theorem foldl_addToMethod (kept : List RawAttribute) (method : Method) :
    kept.foldl addToMethod method = { method with attributes := method.attributes ++ kept } := by
  induction kept generalizing method with
  | nil => simp
  | cons one kept ih => simp [ih, addToMethod]

/-- A method reads attributes with annotations as its own. -/
theorem bears_method :
    Bears methodStep Method.annots (fun method annots => { method with annots }) where
  get_set _ _ := rfl
  set_set _ _ _ := rfl
  set_get _ := rfl
  reads constants name size method read h := by
    simp only [methodStep, Decode.methodAttribute, h]

/-- A method as far as the first attributes tell. -/
def methodUpTo (method : Method) (n : Nat) : Method where
  access := method.access
  name := method.name
  descriptor := method.descriptor
  isDeprecated := if 0 < n then method.isDeprecated else false
  isSynthetic := if 1 < n then method.isSynthetic else false
  code := if 2 < n then method.code else none
  exceptions := if 3 < n then method.exceptions else none
  signature := if 4 < n then method.signature else none
  annots := if 5 < n then method.annots else {}
  visibleParameterAnnots := if 6 < n then method.visibleParameterAnnots else none
  invisibleParameterAnnots := if 7 < n then method.invisibleParameterAnnots else none
  defaultValue := if 8 < n then method.defaultValue else none
  parameters := if 9 < n then method.parameters else none
  attributes := if 10 < n then method.attributes else []

/-- The attributes in front of the code lead from the bare method to one with its marks. -/
theorem addsAll_marks (method : Method) :
    AddsAll methodStep (markers method.isDeprecated method.isSynthetic)
      (methodUpTo method 0) (methodUpTo method 2) := by
  have hdeprecated : Adds methodStep (given method.isDeprecated (marker "Deprecated"))
      (methodUpTo method 0) (methodUpTo method 1) :=
    adds_marker (fun marked => { methodUpTo method 0 with isDeprecated := marked })
      fun _ => reads_pure _
  have hsynthetic : Adds methodStep (given method.isSynthetic (marker "Synthetic"))
      (methodUpTo method 1) (methodUpTo method 2) :=
    adds_marker (fun marked => { methodUpTo method 1 with isSynthetic := marked })
      fun _ => reads_pure _
  exact .cons hdeprecated (.cons hsynthetic (.nil _))

/-- A parameter of a method is read again. -/
theorem kept_parameter (parameter : Parameter) :
    Kept (fun parameter : Parameter => do
      let name ← PoolM.optional parameter.name PoolM.utf8
      return Bytes.ofU16 name ++ Bytes.ofU16 parameter.flags.toBits)
      (fun constants => Decode.parameter constants.table) parameter := by
  have hname : Puts (PoolM.optional parameter.name PoolM.utf8) fun constants index =>
      Table.optional index constants.table.utf8 = .ok parameter.name :=
    puts_optional fun name _ => puts_utf8 name
  refine hname.map fun constants name hname => ?_
  refine (reads_u16 name).bind (.look hname ?_)
  refine (reads_u16 _).finish ?_
  rw [ParameterFlags.ofBits_toBits]
  exact reads_pure _

/-- The attributes behind the code lead to the whole method, whatever code it has. -/
theorem addsAll_method {method : Method} (h : KeptMethod method) (held : Option Code) :
    AddsAll methodStep (methodAttributes method)
      (methodUpTo { method with code := held } 3) { method with code := held } := by
  have hexceptions : Adds methodStep (method.exceptions.map (classList "Exceptions"))
      (methodUpTo { method with code := held } 3) (methodUpTo { method with code := held } 4) :=
    adds_once "Exceptions"
      (fun classes => { methodUpTo { method with code := held } 3 with exceptions := classes })
      (fun classes hclasses => carries_classList _ (h.exceptions classes hclasses)) fun _ _ => rfl
  have hsignature : Adds methodStep (signature method.signature)
      (methodUpTo { method with code := held } 4) (methodUpTo { method with code := held } 5) :=
    adds_signature
      (fun text => { methodUpTo { method with code := held } 4 with signature := text })
      fun _ _ => rfl
  have hannots : AddsAll methodStep (annotAttributes method.annots)
      (methodUpTo { method with code := held } 5) (methodUpTo { method with code := held } 6) :=
    bears_method.addsAll h.annots rfl
  have hvisible : Adds methodStep (method.visibleParameterAnnots.map fun items =>
        sized "RuntimeVisibleParameterAnnotations" (parameterAnnots items))
      (methodUpTo { method with code := held } 6) (methodUpTo { method with code := held } 7) :=
    adds_once "RuntimeVisibleParameterAnnotations" (fun items =>
        { methodUpTo { method with code := held } 6 with visibleParameterAnnots := items })
      (fun items hitems => carries_sized _ (kept_parameterAnnots (h.visible items hitems)))
      fun _ _ => rfl
  have hinvisible : Adds methodStep (method.invisibleParameterAnnots.map fun items =>
        sized "RuntimeInvisibleParameterAnnotations" (parameterAnnots items))
      (methodUpTo { method with code := held } 7) (methodUpTo { method with code := held } 8) :=
    adds_once "RuntimeInvisibleParameterAnnotations" (fun items =>
        { methodUpTo { method with code := held } 7 with invisibleParameterAnnots := items })
      (fun items hitems => carries_sized _ (kept_parameterAnnots (h.invisible items hitems)))
      fun _ _ => rfl
  have hdefault : Adds methodStep
      (method.defaultValue.map fun value => sized "AnnotationDefault" (elementValue value))
      (methodUpTo { method with code := held } 8) (methodUpTo { method with code := held } 9) :=
    adds_once "AnnotationDefault"
      (fun value => { methodUpTo { method with code := held } 8 with defaultValue := value })
      (fun value hvalue => carries_sized _ (h.default value hvalue).kept) fun _ _ => rfl
  have hparameters : Adds methodStep (method.parameters.map fun parameters =>
        sized "MethodParameters" do
          let count ← count8 (.tooMany "method parameters") parameters.length
          return count ++ (← each parameters fun parameter => do
            let name ← PoolM.optional parameter.name PoolM.utf8
            return Bytes.ofU16 name ++ Bytes.ofU16 parameter.flags.toBits))
      (methodUpTo { method with code := held } 9) (methodUpTo { method with code := held } 10) :=
    adds_once "MethodParameters"
      (fun items => { methodUpTo { method with code := held } 9 with parameters := items })
      (fun _ _ => carries_sized _ (kept_shortListOf _ fun one _ => kept_parameter one))
      fun _ _ => rfl
  have hraw := addsAll_raw h.attributes (methodUpTo { method with code := held } 10)
  rw [foldl_addToMethod] at hraw
  exact .append (.append (.append (.cons hexceptions (.cons hsignature (.nil _))) hannots)
    (.cons hvisible (.cons hinvisible (.cons hdefault (.cons hparameters (.nil _)))))) hraw

variable {σ : Type} {supers : SuperClasses σ} {computeFrames : Bool} {cls : ClassName}
  {method : Method} {pool pool' : Builder} {s s' : σ}

/-- **The code of a method is read again, and what is read is written as the code was.** -/
theorem codeAttribute_reads (hsteady : supers.Steady)
    (hcode : ∀ code, method.code = some code → KeptCode code) (hsound : pool.Sound)
    {parts : List Bytes}
    (hplain : ∀ code context pool' s', method.code = some code →
      codeContext supers computeFrames cls method code pool s = (.ok (context, pool'), s') →
        context.Plain)
    (hrun : codeAttribute supers computeFrames cls method pool s = (.ok (parts, pool'), s')) :
    pool'.Sound ∧ ∀ constants : Constants, constants.Covers pool' → constants.Covers pool ∧
      ∃ held, Option.Rel Code.Rereads method.code held ∧
        Steps (readAttribute methodStep constants) parts
          (methodUpTo { method with code := held } 2)
          (methodUpTo { method with code := held } 3) ∧
        Steps skipAttribute parts () () ∧
        ∀ t, ∃ t', codeAttribute supers computeFrames cls { method with code := held } pool t =
          (.ok (parts, pool'), t') := by
  rw [codeAttribute_run] at hrun
  cases hheld : method.code with
  | none =>
      simp only [hheld] at hrun
      obtain ⟨rfl, rfl, rfl⟩ := hrun
      refine ⟨hsound, fun constants hc => ⟨hc, none, .none, .done _, .done _, fun t => ⟨t, ?_⟩⟩⟩
      exact codeAttribute_run.mpr ⟨rfl, rfl, rfl⟩
  | some code =>
      simp only [hheld] at hrun
      obtain ⟨bytes, between, part, hrun, hsized, rfl⟩ := hrun
      obtain ⟨locals, maxStack, frames, body, hlocals, hanalysis, hbody, rfl⟩ := code_run.mp hrun
      have hkept := hcode code hheld
      obtain ⟨hsound₁, hcovers₁⟩ := codeBody_reads hkept (analysis_size hanalysis) hbody hsound
        fun found between layout hitems hlayout => hplain code _ between s' hheld <|
          codeContext_run.mpr ⟨locals, maxStack, frames, found, layout, hlocals, hanalysis, hitems,
            hlayout, rfl⟩
      have hpure : Puts (pure (Bytes.ofU16 maxStack ++ Bytes.ofU16 locals ++ body))
          fun _ contents => contents = Bytes.ofU16 maxStack ++ Bytes.ofU16 locals ++ body :=
        puts_pure fun _ => rfl
      obtain ⟨hsound₂, hcovers₂⟩ := carries_sized "Code" hpure _ _ _ hsized hsound₁
      refine ⟨hsound₂, fun constants hc => ?_⟩
      obtain ⟨hbetween, contents, hattribute, rfl⟩ := hcovers₂ constants hc
      obtain ⟨hbefore, f, hf, hread⟩ := hcovers₁ constants hbetween
      refine ⟨hbefore, some (reread f maxStack locals code), .some ⟨f, maxStack, locals, hf, rfl⟩,
        .more (hattribute.reads ?_) (.done _), .more hattribute.skips (.done _), fun t => ?_⟩
      · exact ((hread maxStack locals).within _).finish (.look (once_none _ _) (reads_pure _))
      · obtain ⟨t', hagain⟩ := code_again hsteady hkept hf hsound hlocals hanalysis hbody
          (some (reread f maxStack locals code)) t
        exact ⟨t', codeAttribute_run.mpr ⟨_, between, part, hagain, hsized, rfl⟩⟩

/-- **A method that is written without replacing any instruction is read again**, and what is read
is written as the method was. -/
theorem method_reads (hsteady : supers.Steady) (h : KeptMethod method) (hsound : pool.Sound)
    (hplain : PlainMethod supers computeFrames cls method pool s) {bytes : Bytes}
    (hrun : Encode.method supers computeFrames cls method pool s = (.ok (bytes, pool'), s')) :
    pool'.Sound ∧ ∀ constants : Constants, constants.Covers pool' → constants.Covers pool ∧
      ∃ method', method.Rereads method' ∧
        Reads (Decode.method constants.table constants.bootstraps) bytes method' ∧
        Reads (skipMember ()) bytes () ∧
        ∀ t, ∃ t', Encode.method supers computeFrames cls method' pool t =
          (.ok (bytes, pool'), t') := by
  obtain ⟨name, pool₁, descriptor, pool₂, marks, pool₃, code, pool₄, rest, all, hname, hdescriptor,
    hmarks, hcode, hrest, hall, rfl⟩ := method_run.mp hrun
  obtain ⟨hsound₁, hcovers₁⟩ := puts_indexed (puts_named .methodName h.name) _ _ _ hname hsound
  obtain ⟨hsound₂, hcovers₂⟩ := puts_indexed (puts_named .methodDescriptor h.descriptor) _ _ _
    hdescriptor hsound₁
  obtain ⟨hsound₃, hcovers₃⟩ := puts_present (addsAll_marks method) _ _ _ hmarks hsound₂
  obtain ⟨hsound₄, hcovers₄⟩ := codeAttribute_reads hsteady (fun code hheld => (h.code code hheld).1)
    hsound₃ (fun code context pool' s' hheld hcontext => hplain context pool' s' <|
      methodContext_run.mpr ⟨code, name, pool₁, descriptor, pool₂, marks, pool₃, hheld, hname,
        hdescriptor, hmarks, hcontext⟩) hcode
  have hattributes := fun held => puts_present (addsAll_method h held) _ _ _ hrest hsound₄
  refine ⟨(hattributes none).1, fun constants hc => ?_⟩
  have hcovers := ((hattributes none).2 constants hc).1
  obtain ⟨hc₃, held, hreread, hreadCode, hskipCode, hagain⟩ := hcovers₄ constants hcovers
  obtain ⟨hc₂, hreadMarks, hskipMarks⟩ := hcovers₃ constants hc₃
  obtain ⟨hc₁, descriptor, rfl, hdescriptor'⟩ := hcovers₂ constants hc₂
  obtain ⟨hc₀, name, rfl, hname'⟩ := hcovers₁ constants hc₁
  obtain ⟨-, hreadRest, hskipRest⟩ := (hattributes held).2 constants hc
  obtain ⟨hread, hskip⟩ := reads_counted hall
    ⟨(hreadMarks.append hreadCode).append hreadRest, (hskipMarks.append hskipCode).append hskipRest⟩
  refine ⟨hc₀, { method with code := held }, ⟨held, hreread, rfl⟩, ?_, reads_skipMember _ _ _ hskip,
    fun t => ?_⟩
  · simp only [List.append_assoc]
    refine (reads_u16 _).bind ?_
    rw [MethodAccess.ofBits_toBits]
    exact (reads_u16 name).bind (.look hname' ((reads_u16 descriptor).bind (.look hdescriptor' hread)))
  · obtain ⟨t', hcode'⟩ := hagain t
    exact ⟨t', method_run.mpr ⟨_, pool₁, _, pool₂, marks, pool₃, code, pool₄, rest, all, hname,
      hdescriptor, hmarks, hcode', hrest, hall, rfl⟩⟩

end Writing

end Encode

end Downlevel
