import Downlevel.Encode.Class
import Downlevel.Proofs.Emitting
import Downlevel.Proofs.Pool.Table

/-!
# Pools that grow

What was put into a pool keeps its index, whatever is put into it afterwards.  So an index that was
written early in a class still stands for the same entry when the pool is written.  This is so for all
that writes a class, and it does not depend on how names are spelled.

* `Pool.Builder.Within` — one pool has all that another one has;
* `PoolM.Enlarges` — work that only adds to the pool, behind what is there;
* `Pool.Builder.TellsCaught` — an index that tells which exceptions are caught;
* `Encode.method_enlarges`, `Encode.behindPool_enlarges` — writing a method only adds to the pool, and
  so does writing a class.
-/

namespace Downlevel

namespace Pool.Builder

/-- One pool has all entries of another one, each at its index. -/
def Within (pool pool' : Builder) : Prop :=
  ∀ (item : Entry) (index : UInt16), pool.index[item]? = some index → pool'.index[item]? = some index

/-- A pool is within itself. -/
theorem Within.refl (pool : Builder) : pool.Within pool :=
  fun _ _ h => h

/-- A pool that grows twice has all that it had at first. -/
theorem Within.trans {pool between pool' : Builder} (h : pool.Within between)
    (h' : between.Within pool') : pool.Within pool' :=
  fun item index hindex => h' item index (h item index hindex)

/-- A pool comes of another one by adding to it, behind what is there. -/
structure Leads (pool pool' : Builder) : Prop where
  within : pool.Within pool'
  placed : pool.Placed → pool'.Placed

/-- A pool comes of another one so that it stays sound, and what covers it covers the other one. -/
def Promises (pool pool' : Builder) : Prop :=
  pool.Sound → pool'.Sound ∧ ∀ constants : Constants, constants.Covers pool' → constants.Covers pool

/-- The index tells the class of the exceptions that are caught, or that all are. -/
def TellsCaught (pool : Builder) (caught : Option ClassName) (index : UInt16) : Prop :=
  match caught with
  | none => index = 0
  | some name => ∃ text, pool.index[Entry.utf8 (JavaString.ofString name)]? = some text ∧
      pool.index[Entry.cls text]? = some index

/-- An index tells the same when the pool has grown. -/
theorem TellsCaught.mono {pool pool' : Builder} {caught : Option ClassName} {index : UInt16}
    (h : pool.TellsCaught caught index) (hwithin : pool.Within pool') :
    pool'.TellsCaught caught index := by
  cases caught with
  | none => exact h
  | some name =>
      obtain ⟨text, htext, hindex⟩ := h
      exact ⟨text, hwithin _ _ htext, hwithin _ _ hindex⟩

end Pool.Builder

namespace PoolM

open Pool

/-- What is put has its index afterwards. -/
theorem index_put {item : Entry} {index : UInt16} {pool pool' : Builder}
    (h : put item pool = .ok (index, pool')) : pool'.index[item]? = some index := by
  unfold put at h
  split at h
  next known hknown =>
    cases h
    exact hknown
  next hunknown =>
    split at h
    next =>
      cases h
      exact Std.HashMap.getElem?_insert_self
    next => cases h

/-- A relation between pools that holds along all that puts entries. -/
class Entered (R : Builder → Builder → Prop) : Prop where
  refl : ∀ pool, R pool pool
  trans : ∀ {pool between pool'}, R pool between → R between pool' → R pool pool'
  put : ∀ {item pool index pool'}, put item pool = .ok (index, pool') → R pool pool'

/-- A relation that also holds along what puts bootstrap methods. -/
class Bootstrapped (R : Builder → Builder → Prop) : Prop extends Entered R where
  bootstrap : ∀ {placed pool index pool'}, bootstrap placed pool = .ok (index, pool') → R pool pool'

instance : Bootstrapped Builder.Leads where
  refl pool := ⟨.refl pool, id⟩
  trans h h' := ⟨h.within.trans h'.within, h'.placed ∘ h.placed⟩
  put {item pool index pool'} h := by
    unfold PoolM.put at h
    split at h
    next =>
      cases h
      exact ⟨.refl _, id⟩
    next hunknown =>
      split at h
      next hroom =>
        cases h
        refine ⟨fun other known hknown => ?_, fun hplaced => placed_insert hplaced hroom⟩
        show (pool.index.insert item pool.count.toUInt16)[other]? = _
        rw [Std.HashMap.getElem?_insert, if_neg]
        · exact hknown
        · intro heq
          cases (eq_of_beq heq ▸ hunknown).symm.trans hknown
      next => cases h
  bootstrap h := by
    unfold PoolM.bootstrap at h
    split at h
    next =>
      cases h
      exact ⟨.refl _, id⟩
    next =>
      dsimp only at h
      split at h
      next =>
        cases h
        exact ⟨fun _ _ hknown => hknown, fun hplaced => ⟨hplaced.count, hplaced.small, hplaced.index⟩⟩
      next => cases h

instance : Entered Builder.Promises where
  refl _ hsound := ⟨hsound, fun _ hcovers => hcovers⟩
  trans h h' hsound := by
    obtain ⟨hbetween, hfirst⟩ := h hsound
    obtain ⟨hafter, hsecond⟩ := h' hbetween
    exact ⟨hafter, fun constants hcovers => hfirst constants (hsecond constants hcovers)⟩
  put h hsound := by
    obtain ⟨hafter, hcovers⟩ := puts_put _ _ _ _ h hsound
    exact ⟨hafter, fun constants hconstants => (hcovers constants hconstants).1⟩

/-- Work along which a relation between pools holds. -/
class Enlarges (R : Builder → Builder → Prop) {α : Type} (work : PoolM α) : Prop where
  run : ∀ {pool value pool'}, work pool = .ok (value, pool') → R pool pool'

/-- Work that only adds to the pool keeps what it has. -/
theorem Enlarges.within {α : Type} {work : PoolM α} [h : Enlarges Builder.Leads work]
    {pool pool' : Builder} {value : α} (hrun : work pool = .ok (value, pool')) : pool.Within pool' :=
  (h.run hrun).within

/-- Work that keeps a pool sound and only adds to it, whatever it gives. -/
theorem Enlarges.puts {α : Type} {work : PoolM α} [h : Enlarges Builder.Promises work] :
    Puts work fun _ _ => True := by
  intro pool value pool' hrun hsound
  obtain ⟨hafter, hcovers⟩ := h.run hrun hsound
  exact ⟨hafter, fun constants hconstants => ⟨hcovers constants hconstants, trivial⟩⟩

section Instances

variable {R : Builder → Builder → Prop} {α β : Type} {work other : PoolM α} {next : α → PoolM β}
  {pool pool' : Builder}

section Entered

variable [Entered R]

instance (value : α) : Enlarges R (pure value : PoolM α) where
  run h := by
    obtain ⟨_, rfl⟩ := work_pure_eq_ok.mp h
    exact Entered.refl _

instance (outcome : Except Error α) : Enlarges R (liftM outcome : PoolM α) where
  run h := by
    obtain ⟨_, rfl⟩ := work_lift_eq_ok.mp h
    exact Entered.refl _

instance (fault : WriteFault) : Enlarges R (refuse fault : PoolM α) where
  run h := by cases h

/-- A relation that holds along two pieces of work holds along both together. -/
theorem Enlarges.bind (hwork : Enlarges R work) (hnext : ∀ value, Enlarges R (next value)) :
    Enlarges R (work >>= next) where
  run h := by
    obtain ⟨value, between, hfirst, hsecond⟩ := work_bind_eq_ok.mp h
    exact Entered.trans (hwork.run hfirst) ((hnext value).run hsecond)

instance [hwork : Enlarges R work] [hnext : ∀ value, Enlarges R (next value)] :
    Enlarges R (work >>= next) :=
  hwork.bind hnext

instance (fault : WriteFault) [Enlarges R work] : Enlarges R (work.within fault) where
  run h := Enlarges.run (within_eq_ok.mp h)

instance (condition : Prop) [Decidable condition] [Enlarges R work] [Enlarges R other] :
    Enlarges R (if condition then work else other) := by
  split <;> infer_instance

instance (item : Entry) : Enlarges R (put item) where
  run h := Entered.put h

/-- Going through a list only adds to the pool, if the work for each item does. -/
theorem enlarges_mapM {items : List α} {work : α → PoolM β}
    (h : ∀ item ∈ items, Enlarges R (work item)) : Enlarges R (items.mapM work) where
  run hrun := work_mapM_run R Entered.refl Entered.trans
    (fun item hmem _ _ _ hitem => (h item hmem).run hitem) hrun

instance (value : Option α) (work : α → PoolM UInt16) [∀ value, Enlarges R (work value)] :
    Enlarges R (optional value work) := by
  cases value with
  | none => exact inferInstanceAs (Enlarges R (pure _))
  | some value => exact inferInstanceAs (Enlarges R (work value))

instance (value : JavaString) : Enlarges R (javaUtf8 value) := inferInstanceAs (Enlarges R (put _))

instance (value : String) : Enlarges R (utf8 value) := inferInstanceAs (Enlarges R (put _))

instance (name : ClassName) : Enlarges R (cls name) := inferInstanceAs (Enlarges R (utf8 _ >>= _))

instance (name : PackageName) : Enlarges R (package name) := inferInstanceAs (Enlarges R (utf8 _ >>= _))

instance (name : ModuleName) : Enlarges R (module name) := inferInstanceAs (Enlarges R (utf8 _ >>= _))

instance (name descriptor : String) : Enlarges R (nameAndType name descriptor) :=
  inferInstanceAs (Enlarges R (utf8 _ >>= fun _ => utf8 _ >>= _))

instance (field : FieldRef) : Enlarges R (fieldRef field) :=
  inferInstanceAs (Enlarges R (cls _ >>= fun _ => nameAndType _ _ >>= _))

instance (method : MethodRef) (onInterface : Bool) : Enlarges R (methodRef method onInterface) :=
  inferInstanceAs (Enlarges R (cls _ >>= fun _ => nameAndType _ _ >>= _))

instance (value : JavaString) : Enlarges R (string value) :=
  inferInstanceAs (Enlarges R (javaUtf8 _ >>= _))

instance (value : Handle) : Enlarges R (handle value) := by
  cases value with
  | field use field => exact inferInstanceAs (Enlarges R (fieldRef _ >>= _))
  | method use method => exact inferInstanceAs (Enlarges R (methodRef _ _ >>= _))

instance (value : ConstantValue) : Enlarges R (constantValue value) := by
  unfold constantValue
  cases value <;> infer_instance

end Entered

section Bootstrapped

variable [Bootstrapped R]

instance (placed : PlacedBootstrap) : Enlarges R (bootstrap placed) where
  run h := Bootstrapped.bootstrap h

mutual

/-- Putting a value that can be loaded only adds to the pool. -/
theorem enlarges_loadable : ∀ value : Loadable, Enlarges R (loadable value)
  | .int _ | .float _ | .long _ | .double _ | .cls _ | .string _ | .handle _ | .methodType _ => by
      unfold loadable
      infer_instance
  | .dynamic _ _ _ arguments => by
      have harguments := enlarges_loadables arguments
      unfold loadable
      infer_instance

/-- So does putting several of them. -/
theorem enlarges_loadables : ∀ values : List Loadable, Enlarges R (loadables values)
  | [] => by
      unfold loadables
      infer_instance
  | value :: rest => by
      have hvalue := enlarges_loadable value
      have hrest := enlarges_loadables rest
      unfold loadables
      infer_instance

end

instance (value : Loadable) : Enlarges R (loadable value) := enlarges_loadable value

instance (values : List Loadable) : Enlarges R (loadables values) := enlarges_loadables values

instance (site : CallSite) : Enlarges R (callSite site) := by
  unfold callSite
  infer_instance

end Bootstrapped

/-- **The class of caught exceptions is told by the index that is written for it.** -/
theorem tellsCaught_optional {caught : Option ClassName} {index : UInt16}
    (h : optional caught cls pool = .ok (index, pool')) : pool'.TellsCaught caught index := by
  cases caught with
  | none => exact (work_pure_eq_ok.mp h).1.symm
  | some name =>
      obtain ⟨text, between, htext, hcls⟩ := work_bind_eq_ok.mp h
      exact ⟨text, Enlarges.within hcls _ _ (index_put htext), index_put hcls⟩

end Instances

end PoolM

namespace Encode

open PoolM

variable {R : Pool.Builder → Pool.Builder → Prop} [Entered R]

section Attributes

variable {α : Type}

instance (items : List α) (item : α → PoolM Bytes) [∀ value, Enlarges R (item value)] :
    Enlarges R (each items item) :=
  have : Enlarges R (items.mapM item) := enlarges_mapM fun _ _ => inferInstance
  inferInstanceAs (Enlarges R (items.mapM item >>= _))

instance (what : String) (items : List α) (item : α → PoolM Bytes)
    [∀ value, Enlarges R (item value)] : Enlarges R (listOf what items item) := by
  unfold listOf
  infer_instance

instance (work : PoolM UInt16) [Enlarges R work] : Enlarges R (indexed work) := by
  unfold indexed
  infer_instance

instance (name : String) (contents : PoolM Bytes) [Enlarges R contents] :
    Enlarges R (sized name contents) := by
  unfold sized
  infer_instance

instance (kept : RawAttribute) : Enlarges R (raw kept) := by
  unfold raw
  infer_instance

/-- An attribute along whose writing a relation between pools holds, if it is there. -/
class EnlargesIf (R : Pool.Builder → Pool.Builder → Prop) (attribute' : Option (PoolM Bytes)) :
    Prop where
  run : ∀ work, attribute' = some work → Enlarges R work

/-- Attributes along whose writing a relation between pools holds. -/
class EnlargesAll (R : Pool.Builder → Pool.Builder → Prop) (attributes : Attributes) : Prop where
  run : ∀ work, some work ∈ attributes → Enlarges R work

instance : EnlargesIf R none where
  run _ h := by cases h

instance (work : PoolM Bytes) [h : Enlarges R work] : EnlargesIf R (some work) where
  run _ hwork := Option.some.inj hwork ▸ h

instance (condition : Bool) (work : PoolM Bytes) [Enlarges R work] :
    EnlargesIf R (given condition work) := by
  unfold given
  split <;> infer_instance

instance (condition : Bool) (first second : Option (PoolM Bytes)) [EnlargesIf R first]
    [EnlargesIf R second] : EnlargesIf R (if condition then first else second) := by
  split <;> infer_instance

instance (value : Option α) (work : α → PoolM Bytes) [∀ value, Enlarges R (work value)] :
    EnlargesIf R (value.map work) := by
  cases value with
  | none => exact inferInstanceAs (EnlargesIf R none)
  | some value => exact inferInstanceAs (EnlargesIf R (some (work value)))

instance : EnlargesAll R [] where
  run _ h := by cases h

instance (first : Option (PoolM Bytes)) (others : Attributes) [EnlargesIf R first]
    [EnlargesAll R others] : EnlargesAll R (first :: others) where
  run work h := by
    rcases List.mem_cons.mp h with hfirst | hothers
    · exact EnlargesIf.run work hfirst.symm
    · exact EnlargesAll.run work hothers

instance (first second : Attributes) [EnlargesAll R first] [EnlargesAll R second] :
    EnlargesAll R (first ++ second) where
  run work h := (List.mem_append.mp h).elim (EnlargesAll.run work) (EnlargesAll.run work)

instance (items : List α) (attribute' : α → Option (PoolM Bytes))
    [∀ item, EnlargesIf R (attribute' item)] : EnlargesAll R (items.map attribute') where
  run work h := by
    obtain ⟨item, -, hitem⟩ := List.mem_map.mp h
    exact EnlargesIf.run work hitem

instance (attributes : Attributes) [h : EnlargesAll R attributes] :
    Enlarges R (present attributes) := by
  refine enlarges_mapM fun work hmem => h.run work ?_
  obtain ⟨found, hfound, heq⟩ := List.mem_filterMap.mp hmem
  exact heq ▸ hfound

end Attributes

namespace Context

variable (context : Context)

instance (type : VType) : Enlarges R (context.vtype type) := by
  cases type <;> simp only [vtype] <;> infer_instance

instance (delta : Nat) (frame : Frame) : Enlarges R (context.fullFrame delta frame) := by
  unfold fullFrame
  infer_instance

instance (frames : Array (Option Frame)) (previous : Option Nat) (done : List Bytes)
    (indices : List Nat) : Enlarges R (context.fullFrames frames previous done indices) := by
  induction indices generalizing previous done with
  | nil => exact inferInstanceAs (Enlarges R (pure _))
  | cons index indices ih =>
      have := ih
      unfold fullFrames
      dsimp only
      split <;> infer_instance

instance (lines : List (Label × UInt16)) : Enlarges R (context.lineNumberTable lines) := by
  unfold lineNumberTable
  infer_instance

instance (v : LocalVariable) (type : String) : Enlarges R (context.variableEntry v type) := by
  unfold variableEntry
  infer_instance

instance (range : ExceptionRange) : Enlarges R (context.exceptionRanges range) := by
  unfold exceptionRanges
  infer_instance

instance : Enlarges R context.exceptionTable :=
  have : Enlarges R (context.code.exceptions.mapM context.exceptionRanges) :=
    enlarges_mapM fun _ _ => inferInstance
  inferInstanceAs (Enlarges R (_ >>= _))

instance (indices : List Nat) : EnlargesIf R (context.stackMapTable? indices) := by
  unfold stackMapTable?
  split <;> infer_instance

instance (name what : String) (locals : List LocalVariable) (type? : LocalVariable → Option String) :
    EnlargesIf R (context.variableTable? name what locals type?) := by
  unfold variableTable?
  infer_instance

instance (computeFrames : Bool) (indices : List Nat) :
    EnlargesAll R (context.attributes computeFrames indices) := by
  unfold attributes
  infer_instance

end Context

/-! ### Whole classes -/

section Annotations

instance (tag : UInt8) (work : PoolM UInt16) [Enlarges R work] : Enlarges R (taggedIndex tag work) := by
  unfold taggedIndex
  infer_instance

instance (name : String) (length : Nat) (contents : PoolM Bytes) [Enlarges R contents] :
    Enlarges R (fixed name length contents) := by
  unfold fixed
  infer_instance

instance (name : String) : Enlarges R (marker name) := inferInstanceAs (Enlarges R (fixed _ _ _))

instance (name : String) (work : PoolM UInt16) [Enlarges R work] : Enlarges R (single name work) :=
  inferInstanceAs (Enlarges R (fixed _ _ (indexed work)))

instance (name : String) (classes : List ClassName) : Enlarges R (classList name classes) := by
  unfold classList
  infer_instance

mutual

/-- Writing a value of an annotation only adds to the pool. -/
theorem enlarges_elementValue : ∀ value : ElementValue, Enlarges R (elementValue value)
  | .byte _ | .char _ | .double _ | .float _ | .int _ | .long _ | .short _ | .boolean _ | .string _
  | .constant _ _ | .cls _ => by
      unfold elementValue
      infer_instance
  | .nested _ values => by
      have hvalues := enlarges_namedValues values
      unfold elementValue
      infer_instance
  | .array values => by
      have hvalues := enlarges_elementValues values
      unfold elementValue
      infer_instance

/-- So does writing several of them. -/
theorem enlarges_elementValues : ∀ values : List ElementValue, Enlarges R (elementValues values)
  | [] => by
      unfold elementValues
      infer_instance
  | value :: rest => by
      have hvalue := enlarges_elementValue value
      have hrest := enlarges_elementValues rest
      unfold elementValues
      infer_instance

/-- So does writing several of them with their names. -/
theorem enlarges_namedValues :
    ∀ values : List (String × ElementValue), Enlarges R (namedValues values)
  | [] => by
      unfold namedValues
      infer_instance
  | (name, value) :: rest => by
      have hvalue := enlarges_elementValue value
      have hrest := enlarges_namedValues rest
      unfold namedValues
      infer_instance

end

instance (value : ElementValue) : Enlarges R (elementValue value) := enlarges_elementValue value

instance (values : List (String × ElementValue)) : Enlarges R (namedValues values) :=
  enlarges_namedValues values

instance (one : Annot) : Enlarges R (annot one) := by
  unfold annot
  infer_instance

instance (items : List Annot) : Enlarges R (annots items) :=
  inferInstanceAs (Enlarges R (listOf _ items annot))

instance (items : List (List Annot)) : Enlarges R (parameterAnnots items) := by
  unfold parameterAnnots
  infer_instance

instance (items : List TypeAnnot) : Enlarges R (typeAnnots items) := by
  unfold typeAnnots
  infer_instance

instance (all : Annots) : EnlargesAll R (annotAttributes all) := by
  unfold annotAttributes
  infer_instance

end Annotations

section Members

instance (isDeprecated isSynthetic : Bool) : EnlargesAll R (markers isDeprecated isSynthetic) := by
  unfold markers
  infer_instance

instance (text : Option Signature) : EnlargesIf R (signature text) := by
  unfold signature
  infer_instance

instance (one : Field) : Enlarges R (field one) := by
  unfold field
  infer_instance

instance (component : RecordComponent) : Enlarges R (recordComponent component) := by
  unfold recordComponent
  infer_instance

instance (method : Method) : EnlargesAll R (methodAttributes method) := by
  unfold methodAttributes
  infer_instance

instance (info : ModuleInfo) : Enlarges R (moduleInfo info) := by
  refine .bind inferInstance fun name => .bind inferInstance fun version => ?_
  refine .bind inferInstance fun requirements => .bind inferInstance fun exported => ?_
  refine .bind inferInstance fun opened => .bind inferInstance fun used => ?_
  infer_instance

instance (one : InnerClass) : Enlarges R (innerClass one) := by
  unfold innerClass
  infer_instance

instance (cls : ClassFile) : EnlargesAll R (classAttributes cls) := by
  unfold classAttributes
  infer_instance

instance (bootstrap : Pool.PlacedBootstrap) : Enlarges R (bootstrapMethod bootstrap) := by
  unfold bootstrapMethod
  infer_instance

instance : Enlarges R bootstrapAttribute where
  run h := by
    obtain ⟨found, between, hget, hrest⟩ := work_bind_eq_ok.mp h
    obtain ⟨rfl, rfl⟩ := work_get_eq_ok.mp hget
    split at hrest
    · obtain ⟨-, rfl⟩ := work_pure_eq_ok.mp hrest
      exact Entered.refl _
    · exact Enlarges.run hrest

end Members

section Written

variable {R : Pool.Builder → Pool.Builder → Prop} [Bootstrapped R]

instance (opcode : UInt8) (work : PoolM UInt16) [Enlarges R work] :
    Enlarges R (withIndex opcode work) := by
  unfold withIndex
  infer_instance

instance (instruction : Instruction) : Enlarges R (item instruction) := by
  cases instruction <;> unfold item <;> infer_instance

instance (placement : Layout.Placement) (done : List (Option Label × CodeItem))
    (entries : List Labelled) : Enlarges R (itemsFrom placement done entries) := by
  induction entries generalizing placement done with
  | nil => exact inferInstanceAs (Enlarges R (pure _))
  | cons entry rest ih =>
      have := ih
      unfold itemsFrom
      infer_instance

instance (computeFrames : Bool) (code : Code) (frames : Option (Array (Option Frame))) :
    Enlarges R (codeBody computeFrames code frames) := by
  have hitems : Enlarges R (items code.instructions) := inferInstanceAs (Enlarges R (itemsFrom _ _ _))
  refine hitems.bind fun items => .bind inferInstance fun layout => ?_
  split
  · infer_instance
  · dsimp only
    infer_instance

variable {σ : Type} {supers : SuperClasses σ} {computeFrames : Bool} {pool pool' : Pool.Builder}
  {bytes : Bytes} {s s' : σ}

/-- Writing the code of a method only adds to the pool. -/
theorem codeAttribute_enlarges {cls : ClassName} {method : Method} {parts : List Bytes}
    (h : codeAttribute supers computeFrames cls method pool s = (.ok (parts, pool'), s')) :
    R pool pool' := by
  rw [codeAttribute_run] at h
  cases hheld : method.code with
  | none =>
      rw [hheld] at h
      exact h.2.1 ▸ Entered.refl _
  | some code =>
      rw [hheld] at h
      obtain ⟨_, _, _, hwritten, hsized, -⟩ := h
      obtain ⟨_, _, _, _, -, -, hbody, -⟩ := code_run.mp hwritten
      exact Entered.trans (Enlarges.run hbody) (Enlarges.run hsized)

/-- **Writing a method only adds to the pool.** -/
theorem method_enlarges {cls : ClassName} {method : Method}
    (h : Encode.method supers computeFrames cls method pool s = (.ok (bytes, pool'), s')) :
    R pool pool' := by
  obtain ⟨_, _, _, _, _, _, _, _, _, _, hname, hdescriptor, hmarks, hcode, hrest, -, -⟩ :=
    method_run.mp h
  have hfront := Entered.trans (R := R) (Enlarges.run hname)
    (Entered.trans (Enlarges.run hdescriptor) (Enlarges.run hmarks))
  exact Entered.trans (Entered.trans hfront (codeAttribute_enlarges hcode)) (Enlarges.run hrest)

/-- **So does writing all that stands behind the pool of a class.** -/
theorem behindPool_enlarges {cls : ClassFile}
    (h : behindPool supers computeFrames cls pool s = (.ok (bytes, pool'), s')) : R pool pool' := by
  obtain ⟨_, _, _, _, _, _, _, _, _, _, _, _, _, _, hname, hsuper, hinterfaces, hfields, hmethods,
    hrest, hbootstraps, -, -⟩ := behindPool_run.mp h
  obtain ⟨-, ⟨_, hinterfaces, -⟩, -⟩ := members_pool_eq_ok.mp hinterfaces
  obtain ⟨-, ⟨_, hfields, -⟩, -⟩ := members_pool_eq_ok.mp hfields
  obtain ⟨-, _, hmethods, -⟩ := members_eq_ok.mp hmethods
  have hnamed := Entered.trans (R := R) (Enlarges.run hname) (Enlarges.run hsuper)
  have hinterfaces := (enlarges_mapM fun _ _ => inferInstance).run (R := R) hinterfaces
  have hfields := (enlarges_mapM fun _ _ => inferInstance).run (R := R) hfields
  have hmethods := emit_mapM_run R Entered.refl Entered.trans
    (fun _ _ _ _ _ _ _ hmethod => method_enlarges (emit_within_eq_ok.mp hmethod)) hmethods
  have hfront := Entered.trans hnamed (Entered.trans hinterfaces hfields)
  have hbehind := Entered.trans (R := R) (Enlarges.run hrest) (Enlarges.run hbootstraps)
  exact Entered.trans hfront (Entered.trans hmethods hbehind)

end Written

end Encode

end Downlevel
