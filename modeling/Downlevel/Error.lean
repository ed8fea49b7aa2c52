import Downlevel.Fault.Reading
import Downlevel.Fault.Writing
import Downlevel.Fault.Lowering
import Downlevel.Fault.Archive

/-!
# Errors

An error is a chain of faults: the reason, and in front of it the places in which it arose, the
outermost first.  Its message joins their wordings with colons.
-/

namespace Downlevel

/-- A fault of any part of the library. -/
inductive Fault where
  | text (fault : TextFault)
  | read (fault : ReadFault)
  | write (fault : WriteFault)
  | frame (fault : FrameFault)
  | lower (fault : LowerFault)
  | archive (fault : ArchiveFault)
  /-- A list of `length` items was asked for its item at `index`, which lies beyond its end. -/
  | outOfRange (length index : Nat)
  deriving DecidableEq

namespace Fault

/-- The wording of a fault. -/
def message : Fault → String
  | text fault => fault.text
  | read fault => fault.text
  | write fault => fault.text
  | frame fault => fault.text
  | lower fault => fault.text
  | archive fault => fault.text
  | outOfRange length index =>
      s!"index out of bounds: the len is {length} but the index is {index}"

/-- A fault that no caller can handle: the computation has no answer at all. -/
def isFatal : Fault → Bool
  | outOfRange _ _ => true
  | lower .endlessSearch => true
  | _ => false

end Fault

/-- A reason and the places around it, the outermost first. -/
structure Error where
  parts : List Fault
  deriving DecidableEq

namespace Error

/-- The error of a single fault. -/
def of (fault : Fault) : Error :=
  ⟨[fault]⟩

/-- The error seen from a place around it. -/
def within (fault : Fault) (error : Error) : Error :=
  ⟨fault :: error.parts⟩

/-- The wording of an error. -/
def message (error : Error) : String :=
  ": ".intercalate (error.parts.map Fault.message)

/-- An error that no caller can handle. -/
def isFatal (error : Error) : Bool :=
  error.parts.any Fault.isFatal

end Error

/-- An outcome that is a fault and nothing else. -/
def fail {α : Type} (fault : Fault) : Except Error α :=
  .error (Error.of fault)

/-- An outcome seen from a place around it: a value stays, an error names the place. -/
def within {α : Type} (fault : Fault) : Except Error α → Except Error α
  | .ok value => .ok value
  | .error error => .error (error.within fault)

/-- The value of an option, or a fault if there is none. -/
def orFail {α : Type} (fault : Fault) : Option α → Except Error α
  | some value => .ok value
  | none => fail fault

/-- Work on a state of type `σ` that can fail.  The state is kept also by work that fails, as what
it recorded until then has happened. -/
abbrev Task (σ : Type) := ExceptT Error (StateM σ)

namespace Task

/-- Work seen from a place around it. -/
def within {σ α : Type} (fault : Fault) (task : Task σ α) : Task σ α :=
  fun state =>
    match task state with
    | (.ok value, state) => (.ok value, state)
    | (.error error, state) => (.error (error.within fault), state)

/-- Work that only has an outcome and leaves the state alone. -/
def ofExcept {σ α : Type} (outcome : Except Error α) : Task σ α :=
  fun state => (outcome, state)

end Task

instance {σ : Type} : MonadLift (Except Error) (Task σ) where
  monadLift := Task.ofExcept

end Downlevel
