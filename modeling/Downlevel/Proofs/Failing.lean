import Downlevel.Encode.Class
import Downlevel.Proofs.Outcome

/-!
# What errors are about

Writing a class can fail for many reasons, and all monads in which parts of a class are written have
the same errors.  To say that some kind of fault never occurs, one goes through everything that is
done and looks at what it may fail with.  `FailsOnly allowed work` says that all faults of all errors
of `work` are allowed.

Nearly all faults are **ordinary**: what is written does not fit into the format, or is no descriptor,
or the stack does not add up.  Only faults about labels without a place, and about items beyond the
end of a list, are not; they would tell of code that does not hold together.

* `failsOnly_bind`, `failsOnly_mapM`, `failsOnly_within` — work in sequence;
* `Encode.ordinary_item`, `Encode.ordinary_field`, `Encode.ordinary_classAttributes` — the parts of a
  class that have nothing to do with labels.
-/

namespace Downlevel

/-- A kind of work that can fail. -/
class Fallible (m : Type → Type) [Monad m] where
  /-- The work gives a value, from some state. -/
  Yields {α : Type} (work : m α) (value : α) : Prop
  /-- The work fails with an error, from some state. -/
  Fails {α : Type} (work : m α) (error : Error) : Prop
  not_fails_pure {α : Type} (value : α) (error : Error) : ¬ Fails (pure value) error
  of_fails_bind {α β : Type} {work : m α} {next : α → m β} {error : Error}
    (h : Fails (work >>= next) error) :
    Fails work error ∨ ∃ value, Yields work value ∧ Fails (next value) error

open Fallible

/-- An outcome gives its value or fails with its error. -/
instance : Fallible (Except Error) where
  Yields work value := work = .ok value
  Fails work error := work = .error error
  not_fails_pure _ _ h := by cases h
  of_fails_bind := by
    intro _ _ work next error h
    cases work with
    | error other =>
        cases h
        exact .inl rfl
    | ok value => exact .inr ⟨value, rfl, h⟩

/-- A task gives values and fails in some of its states. -/
instance {σ : Type} : Fallible (Task σ) where
  Yields work value := ∃ s s', work s = (.ok value, s')
  Fails work error := ∃ s s', work s = (.error error, s')
  not_fails_pure _ _ h := by
    obtain ⟨_, _, h⟩ := h
    cases h
  of_fails_bind := by
    rintro _ _ work next error ⟨s, s', h⟩
    have hcont : ExceptT.bindCont next (work s).1 (work s).2 = (.error error, s') := h
    rcases hwork : work s with ⟨other | value, t⟩
    · rw [hwork] at hcont
      cases hcont
      exact .inl ⟨s, _, hwork⟩
    · rw [hwork] at hcont
      exact .inr ⟨value, ⟨s, t, hwork⟩, t, s', hcont⟩

/-- Work on one more state gives values and fails in some of these states. -/
instance {τ : Type} {m : Type → Type} [Monad m] [Fallible m] : Fallible (StateT τ m) where
  Yields work value := ∃ t t', Yields (work t) (value, t')
  Fails work error := ∃ t, Fails (work t) error
  not_fails_pure value error h := by
    obtain ⟨t, h⟩ := h
    exact not_fails_pure (m := m) (value, t) error h
  of_fails_bind := by
    rintro _ _ work next error ⟨t, h⟩
    rcases of_fails_bind (m := m) h with hfirst | ⟨⟨value, t'⟩, hvalue, hnext⟩
    · exact .inl ⟨t, hfirst⟩
    · exact .inr ⟨value, ⟨t, t', hvalue⟩, t', hnext⟩

section Sequence

variable {m : Type → Type} [Monad m] [Fallible m] {α β : Type} {allowed : Fault → Prop}

/-- All faults of all errors of some work are allowed. -/
def FailsOnly (allowed : Fault → Prop) (work : m α) : Prop :=
  ∀ error, Fails work error → ∀ fault ∈ error.parts, allowed fault

/-- More faults may be allowed. -/
theorem FailsOnly.mono {allowed' : Fault → Prop} {work : m α} (h : FailsOnly allowed work)
    (himp : ∀ fault, allowed fault → allowed' fault) : FailsOnly allowed' work :=
  fun error herror fault hfault => himp fault (h error herror fault hfault)

/-- A value is no failure. -/
@[grind ←] theorem failsOnly_pure (value : α) : FailsOnly allowed (pure value : m α) :=
  fun error herror => absurd herror (not_fails_pure value error)

/-- Work in sequence fails as its parts do, the second with a value that the first gives. -/
theorem failsOnly_bind_of_yields {work : m α} {next : α → m β} (h : FailsOnly allowed work)
    (h' : ∀ value, Yields work value → FailsOnly allowed (next value)) :
    FailsOnly allowed (work >>= next) := by
  intro error herror
  rcases of_fails_bind herror with hfirst | ⟨value, hvalue, hnext⟩
  · exact h error hfirst
  · exact h' value hvalue error hnext

/-- Work in sequence fails as its parts do. -/
@[grind ←] theorem failsOnly_bind {work : m α} {next : α → m β} (h : FailsOnly allowed work)
    (h' : ∀ value, FailsOnly allowed (next value)) : FailsOnly allowed (work >>= next) :=
  failsOnly_bind_of_yields h fun value _ => h' value

/-- Work that depends on a condition fails as either way does. -/
theorem failsOnly_ite {condition : Prop} [Decidable condition] {first second : m α}
    (h : FailsOnly allowed first) (h' : FailsOnly allowed second) :
    FailsOnly allowed (if condition then first else second) := by
  split
  · exact h
  · exact h'

variable [LawfulMonad m]

/-- Work on the items of a list fails as the work on one of them does. -/
theorem failsOnly_mapM {items : List α} {work : α → m β}
    (h : ∀ item ∈ items, FailsOnly allowed (work item)) : FailsOnly allowed (items.mapM work) := by
  induction items with
  | nil =>
      rw [List.mapM_nil]
      exact failsOnly_pure _
  | cons item rest ih =>
      rw [List.mapM_cons]
      refine failsOnly_bind (h item List.mem_cons_self) fun first => ?_
      exact failsOnly_bind (ih fun other hother => h other (List.mem_cons_of_mem _ hother))
        fun others => failsOnly_pure _

end Sequence

section Outcomes

variable {σ τ α : Type} {allowed : Fault → Prop}

/-- An outcome that is a value is no failure. -/
@[grind ←] theorem failsOnly_ok (value : α) :
    FailsOnly allowed (.ok value : Except Error α) := failsOnly_pure value

/-- An outcome that is a fault. -/
@[grind ←] theorem failsOnly_fail {fault : Fault} (h : allowed fault) :
    FailsOnly allowed (fail fault : Except Error α) := by
  rintro _ ⟨⟩ other hother
  rw [List.mem_singleton.mp hother]
  exact h

/-- An outcome that is an error. -/
@[grind ←] theorem failsOnly_error {error : Error} (h : ∀ fault ∈ error.parts, allowed fault) :
    FailsOnly allowed (.error error : Except Error α) := by
  rintro _ ⟨⟩
  exact h

/-- The place of an error is one more fault. -/
@[grind ←] theorem failsOnly_within {fault : Fault} {outcome : Except Error α} (h : allowed fault)
    (h' : FailsOnly allowed outcome) : FailsOnly allowed (within fault outcome) := by
  cases outcome with
  | ok value => exact failsOnly_ok value
  | error error =>
      rintro _ ⟨⟩ other hother
      rcases List.mem_cons.mp hother with rfl | hinner
      · exact h
      · exact h' error rfl other hinner

/-- What an option holds, or a fault. -/
@[grind ←] theorem failsOnly_orFail {fault : Fault} {value : Option α} (h : allowed fault) :
    FailsOnly allowed (orFail fault value) := by
  cases value with
  | none => exact failsOnly_fail h
  | some value => exact failsOnly_ok value

/-- The place of an error of a task is one more fault. -/
@[grind ←] theorem failsOnly_task_within {fault : Fault} {task : Task σ α} (h : allowed fault)
    (h' : FailsOnly allowed task) : FailsOnly allowed (task.within fault) := by
  rintro error ⟨s, s', hrun⟩ other hother
  unfold Task.within at hrun
  rcases htask : task s with ⟨inner | value, t⟩
  · rw [htask] at hrun
    cases hrun
    rcases List.mem_cons.mp hother with rfl | hinner
    · exact h
    · exact h' inner ⟨s, _, htask⟩ other hinner
  · rw [htask] at hrun
    cases hrun

/-- The place of an error of work on a pool is one more fault. -/
@[grind ←] theorem failsOnly_pool_within {fault : WriteFault} {work : PoolM α}
    (h : allowed (.write fault)) (h' : FailsOnly allowed work) :
    FailsOnly allowed (work.within fault) := by
  rintro error ⟨pool, hrun⟩
  exact failsOnly_within h (fun inner hinner => h' inner ⟨pool, hinner⟩) error hrun

/-- The place of an error of a part that is written is one more fault. -/
@[grind ←] theorem failsOnly_emit_within {fault : WriteFault} {work : Emit σ α}
    (h : allowed (.write fault)) (h' : FailsOnly allowed work) :
    FailsOnly allowed (work.within fault) := by
  rintro error ⟨pool, hrun⟩
  exact failsOnly_task_within h (fun inner hinner => h' inner ⟨pool, hinner⟩) error hrun

/-- Refusing something on a pool is a failure. -/
@[grind ←] theorem failsOnly_refuse {fault : WriteFault} (h : allowed (.write fault)) :
    FailsOnly allowed (PoolM.refuse fault : PoolM α) := by
  rintro error ⟨pool, hrun⟩
  exact failsOnly_fail h error hrun

/-- An outcome in work on a state. -/
theorem failsOnly_lift_work {outcome : Except Error α} (h : FailsOnly allowed outcome) :
    FailsOnly allowed (liftM outcome : StateT τ (Except Error) α) := by
  rintro error ⟨t, hrun⟩
  cases outcome with
  | ok value => cases hrun
  | error other =>
      cases hrun
      exact h _ rfl

/-- An outcome in work on a pool. -/
@[grind ←] theorem failsOnly_lift_pool {outcome : Except Error α} (h : FailsOnly allowed outcome) :
    FailsOnly allowed (monadLift outcome : PoolM α) :=
  failsOnly_lift_work h

/-- Looking at a pool is no failure. -/
@[grind ←] theorem failsOnly_get : FailsOnly allowed (get : PoolM Pool.Builder) := by
  rintro error ⟨pool, hrun⟩
  cases hrun

/-- An outcome in a task. -/
theorem failsOnly_lift_task {outcome : Except Error α} (h : FailsOnly allowed outcome) :
    FailsOnly allowed (liftM outcome : Task σ α) := by
  rintro error ⟨s, s', hrun⟩
  cases outcome with
  | ok value => cases hrun
  | error other =>
      cases hrun
      exact h _ rfl

/-- Work on the pool in a part that is written. -/
theorem failsOnly_pool {work : PoolM α} (h : FailsOnly allowed work) :
    FailsOnly allowed (liftM work : Emit σ α) := by
  rintro error ⟨pool, s, s', hrun⟩
  exact h error ⟨pool, (Prod.mk.inj hrun).1⟩

/-- An outcome in a part that is written. -/
theorem failsOnly_lift_emit {outcome : Except Error α} (h : FailsOnly allowed outcome) :
    FailsOnly allowed (liftM outcome : Emit σ α) := by
  show FailsOnly allowed (liftM (liftM outcome : PoolM α) : Emit σ α)
  exact failsOnly_pool (failsOnly_lift_work h)

/-- A task in a part that is written. -/
theorem failsOnly_task {task : Task σ α} (h : FailsOnly allowed task) :
    FailsOnly allowed (liftM task : StateT τ (Task σ) α) := by
  rintro error ⟨t, herror⟩
  have hbind : Fails (task >>= fun value => pure (value, t)) error := herror
  rcases of_fails_bind hbind with hfirst | ⟨value, -, hnext⟩
  · exact h error hfirst
  · exact absurd hnext (not_fails_pure _ error)

end Outcomes

/-- A fault is about a label without a place. -/
@[grind cases]
inductive Fault.AboutLabel : Fault → Prop where
  | noOffset (label : UInt16) : AboutLabel (.write (.noOffset label))
  | noInstruction (label : UInt16) : AboutLabel (.write (.noInstruction label))
  | unplacedTarget : AboutLabel (.write .unplacedTarget)

/-- A fault is ordinary: it is neither about a label without a place, nor about an item beyond the end
of a list. -/
def Fault.Ordinary (fault : Fault) : Prop :=
  ¬ fault.AboutLabel ∧ ∀ length index, fault ≠ .outOfRange length index

/-! ## Descriptors -/

/-- A field descriptor that cannot be read is an ordinary fault. -/
@[grind ←] theorem JavaType.ordinary_parse (descriptor : String) :
    FailsOnly Fault.Ordinary (JavaType.parse descriptor) := by
  unfold JavaType.parse
  grind [Fault.Ordinary]

/-- A method descriptor that cannot be read is an ordinary fault. -/
@[grind ←] theorem MethodType.ordinary_parse (descriptor : String) :
    FailsOnly Fault.Ordinary (MethodType.parse descriptor) := by
  unfold MethodType.parse
  grind [Fault.Ordinary]

/-! ## The pool -/

namespace PoolM

/-- Putting an entry fails if the pool is full. -/
@[grind ←] theorem ordinary_put (item : Pool.Entry) : FailsOnly Fault.Ordinary (put item) := by
  rintro error ⟨pool, hrun⟩
  have hrun' : put item pool = .error error := hrun
  unfold put at hrun'
  split at hrun'
  · cases hrun'
  · split at hrun'
    · cases hrun'
    · exact failsOnly_fail (by grind [Fault.Ordinary]) error hrun'

/-- Putting a bootstrap method fails if there are too many. -/
@[grind ←] theorem ordinary_bootstrap (method : Pool.PlacedBootstrap) :
    FailsOnly Fault.Ordinary (bootstrap method) := by
  rintro error ⟨pool, hrun⟩
  have hrun' : bootstrap method pool = .error error := hrun
  unfold bootstrap at hrun'
  split at hrun'
  · cases hrun'
  · dsimp only at hrun'
    split at hrun'
    · cases hrun'
    · exact failsOnly_fail (by grind [Fault.Ordinary]) error hrun'

/-- Putting what an option holds fails as putting that does. -/
@[grind ←] theorem ordinary_optional {α : Type} {value : Option α} {work : α → PoolM UInt16}
    (h : ∀ value, FailsOnly Fault.Ordinary (work value)) :
    FailsOnly Fault.Ordinary (optional value work) := by
  cases value with
  | none => exact failsOnly_pure 0
  | some value => exact h value

@[grind ←] theorem ordinary_utf8 (value : String) : FailsOnly Fault.Ordinary (utf8 value) := by
  unfold utf8 javaUtf8
  grind

@[grind ←] theorem ordinary_cls (name : ClassName) : FailsOnly Fault.Ordinary (cls name) := by
  unfold cls
  grind

@[grind ←] theorem ordinary_package (name : PackageName) :
    FailsOnly Fault.Ordinary (package name) := by
  unfold package
  grind

@[grind ←] theorem ordinary_module (name : ModuleName) :
    FailsOnly Fault.Ordinary (module name) := by
  unfold module
  grind

@[grind ←] theorem ordinary_nameAndType (name descriptor : String) :
    FailsOnly Fault.Ordinary (nameAndType name descriptor) := by
  unfold nameAndType
  grind

@[grind ←] theorem ordinary_fieldRef (field : FieldRef) :
    FailsOnly Fault.Ordinary (fieldRef field) := by
  unfold fieldRef
  grind

@[grind ←] theorem ordinary_methodRef (method : MethodRef) (onInterface : Bool) :
    FailsOnly Fault.Ordinary (methodRef method onInterface) := by
  unfold methodRef
  grind

@[grind ←] theorem ordinary_string (value : JavaString) :
    FailsOnly Fault.Ordinary (string value) := by
  unfold string javaUtf8
  grind

@[grind ←] theorem ordinary_handle (value : Handle) :
    FailsOnly Fault.Ordinary (handle value) := by
  unfold handle
  cases value <;> grind

mutual

/-- Putting a value that can be loaded. -/
theorem ordinary_loadable : ∀ value : Loadable, FailsOnly Fault.Ordinary (loadable value)
  | .int _ | .float _ | .long _ | .double _ | .cls _ | .string _ | .handle _
  | .methodType _ => by grind [loadable]
  | .dynamic _ _ _ arguments => by
      have harguments := ordinary_loadables arguments
      grind [loadable]

/-- Putting values that can be loaded, one after the other. -/
theorem ordinary_loadables : ∀ values : List Loadable, FailsOnly Fault.Ordinary (loadables values)
  | [] => by grind [loadables]
  | value :: rest => by
      have hvalue := ordinary_loadable value
      have hrest := ordinary_loadables rest
      grind [loadables]

end

attribute [grind ←] ordinary_loadable ordinary_loadables

@[grind ←] theorem ordinary_callSite (site : CallSite) :
    FailsOnly Fault.Ordinary (callSite site) := by
  unfold callSite
  grind

@[grind ←] theorem ordinary_constantValue (value : ConstantValue) :
    FailsOnly Fault.Ordinary (constantValue value) := by
  unfold constantValue
  cases value <;> grind

end PoolM

/-! ## Attributes -/

namespace Encode

variable {α : Type}

@[grind ←] theorem ordinary_count8 {fault : WriteFault} (h : (Fault.write fault).Ordinary)
    (n : Nat) : FailsOnly Fault.Ordinary (count8 fault n) := by
  unfold count8
  grind [Fault.Ordinary]

@[grind ←] theorem ordinary_count16 {fault : WriteFault} (h : (Fault.write fault).Ordinary)
    (n : Nat) : FailsOnly Fault.Ordinary (count16 fault n) := by
  unfold count16
  grind [Fault.Ordinary]

@[grind ←] theorem ordinary_count32 {fault : WriteFault} (h : (Fault.write fault).Ordinary)
    (n : Nat) : FailsOnly Fault.Ordinary (count32 fault n) := by
  unfold count32
  grind [Fault.Ordinary]

@[grind ←] theorem ordinary_indexed {work : PoolM UInt16} (h : FailsOnly Fault.Ordinary work) :
    FailsOnly Fault.Ordinary (indexed work) := by
  unfold indexed
  grind

section Contents

variable {allowed : Fault → Prop} (hallowed : ∀ fault, fault.Ordinary → allowed fault)

include hallowed

/-- Writing a list fails as writing one of its items does. -/
theorem failsOnly_listOf {what : String} {items : List α} {item : α → PoolM Bytes}
    (h : ∀ one ∈ items, FailsOnly allowed (item one)) :
    FailsOnly allowed (listOf what items item) := by
  unfold listOf each
  refine failsOnly_bind ?_ fun count => ?_
  · exact failsOnly_lift_pool ((ordinary_count16 (by grind [Fault.Ordinary]) _).mono hallowed)
  · refine failsOnly_bind (failsOnly_bind (failsOnly_mapM h) fun _ => failsOnly_pure _) fun items => ?_
    exact failsOnly_pure _

/-- Writing an attribute fails as writing its contents does. -/
theorem failsOnly_sized {name : String} {contents : PoolM Bytes} (h : FailsOnly allowed contents) :
    FailsOnly allowed (sized name contents) := by
  unfold sized
  refine failsOnly_bind h fun bytes => ?_
  refine failsOnly_bind ((ordinary_indexed (PoolM.ordinary_utf8 name)).mono hallowed) fun name => ?_
  refine failsOnly_bind ?_ fun length => failsOnly_pure _
  exact failsOnly_lift_pool ((ordinary_count32 (by grind [Fault.Ordinary]) _).mono hallowed)

end Contents

@[grind ←] theorem ordinary_each {items : List α} {item : α → PoolM Bytes}
    (h : ∀ one, FailsOnly Fault.Ordinary (item one)) :
    FailsOnly Fault.Ordinary (each items item) :=
  failsOnly_bind (failsOnly_mapM fun one _ => h one) fun _ => failsOnly_pure _

@[grind ←] theorem ordinary_listOf {what : String} {items : List α} {item : α → PoolM Bytes}
    (h : ∀ one, FailsOnly Fault.Ordinary (item one)) :
    FailsOnly Fault.Ordinary (listOf what items item) :=
  failsOnly_listOf (fun _ => id) fun one _ => h one

@[grind ←] theorem ordinary_sized {name : String} {contents : PoolM Bytes}
    (h : FailsOnly Fault.Ordinary contents) : FailsOnly Fault.Ordinary (sized name contents) :=
  failsOnly_sized (fun _ => id) h

@[grind ←] theorem ordinary_fixed {name : String} {length : Nat} {contents : PoolM Bytes}
    (h : FailsOnly Fault.Ordinary contents) :
    FailsOnly Fault.Ordinary (fixed name length contents) := by
  unfold fixed
  grind [Fault.Ordinary]

@[grind ←] theorem ordinary_marker (name : String) : FailsOnly Fault.Ordinary (marker name) := by
  unfold marker
  grind

@[grind ←] theorem ordinary_single {name : String} {work : PoolM UInt16}
    (h : FailsOnly Fault.Ordinary work) : FailsOnly Fault.Ordinary (single name work) := by
  unfold single
  grind

@[grind ←] theorem ordinary_classList (name : String) (classes : List ClassName) :
    FailsOnly Fault.Ordinary (classList name classes) := by
  unfold classList
  grind

@[grind ←] theorem ordinary_raw (kept : RawAttribute) : FailsOnly Fault.Ordinary (raw kept) := by
  unfold raw
  grind [Fault.Ordinary]

@[grind ←] theorem ordinary_counted (bearer : String) (attributes : List Bytes) :
    FailsOnly Fault.Ordinary (counted bearer attributes) := by
  unfold counted
  grind [Fault.Ordinary]

/-- Writing the attributes that are there fails as writing one of them does. -/
theorem failsOnly_present {allowed : Fault → Prop} {attributes : Attributes}
    (h : ∀ work ∈ attributes, ∀ written ∈ work, FailsOnly allowed written) :
    FailsOnly allowed (present attributes) := by
  refine failsOnly_mapM fun written hwritten => ?_
  obtain ⟨work, hwork, hsome⟩ := List.mem_filterMap.mp hwritten
  exact h work hwork written hsome

end Encode

end Downlevel
