import Downlevel.Name
import Downlevel.Text.JavaString

/-!
# Constants

What instructions and bootstrap methods refer to: fields and methods of classes, handles on them,
and the values that can be loaded.  A dynamic constant is computed by a bootstrap method when it is
first needed; a dynamic call site is linked by one.  Floating-point values are kept as their bits,
so that two constants are equal exactly if they are written alike.
-/

namespace Downlevel

/-- A field of a class. -/
structure FieldRef where
  owner : ClassName
  name : FieldName
  descriptor : FieldDescriptor
  deriving DecidableEq, Inhabited

/-- A method of a class. -/
structure MethodRef where
  owner : ClassName
  name : MethodName
  descriptor : MethodDescriptor
  deriving DecidableEq, Inhabited

/-- The name and the descriptor of a method. -/
structure MethodId where
  name : MethodName
  descriptor : MethodDescriptor
  deriving DecidableEq, Inhabited

/-- The ways to use a field through a handle. -/
inductive FieldUse where
  | getField
  | getStatic
  | putField
  | putStatic
  deriving DecidableEq

/-- The ways to call a method through a handle. -/
inductive MethodUse where
  | virtual
  | static (onInterface : Bool)
  | special (onInterface : Bool)
  | newSpecial
  | interface
  deriving DecidableEq

/-- A reference to a field or a method with the way to use it. -/
inductive Handle where
  | field (use : FieldUse) (target : FieldRef)
  | method (use : MethodUse) (target : MethodRef)
  deriving DecidableEq

namespace Handle

/-- The number of the kind of a handle. -/
def kind : Handle → UInt8
  | field .getField _ => 1
  | field .getStatic _ => 2
  | field .putField _ => 3
  | field .putStatic _ => 4
  | method .virtual _ => 5
  | method (.static _) _ => 6
  | method (.special _) _ => 7
  | method .newSpecial _ => 8
  | method .interface _ => 9

/-- The class that a handle refers to. -/
def owner : Handle → ClassName
  | field _ target => target.owner
  | method _ target => target.owner

/-- The name of the member that a handle refers to. -/
def name : Handle → String
  | field _ target => target.name
  | method _ target => target.name

/-- The descriptor of the member that a handle refers to. -/
def descriptor : Handle → String
  | field _ target => target.descriptor
  | method _ target => target.descriptor

/-- Whether the method is looked up in an interface. -/
def onInterface : Handle → Bool
  | method .interface _ => true
  | method (.static isInterface) _ => isInterface
  | method (.special isInterface) _ => isInterface
  | _ => false

/-- The method of a handle, if it is on one. -/
def method? : Handle → Option MethodRef
  | field _ _ => none
  | method _ target => some target

/-- Whether a handle is on the given method. -/
def isMethod (handle : Handle) (target : MethodRef) : Bool :=
  handle.method? = some target

/-- Whether a handle is on the given method and calls it as a static one. -/
def isStatic (handle : Handle) (target : MethodRef) : Bool :=
  match handle with
  | method (.static _) found => found = target
  | _ => false

end Handle

/-- A value that can be loaded.  `dynamic` is a constant computed by its bootstrap method. -/
inductive Loadable where
  | int (value : Int32)
  | float (bits : UInt32)
  | long (value : Int64)
  | double (bits : UInt64)
  | cls (name : ClassName)
  | string (value : JavaString)
  | handle (handle : Handle)
  | methodType (descriptor : MethodDescriptor)
  | dynamic (name : FieldName) (descriptor : FieldDescriptor) (bootstrap : Handle)
      (arguments : List Loadable)

namespace Loadable

mutual

/-- Whether two constants are the same. -/
def same : Loadable → Loadable → Bool
  | int a, int b => a == b
  | float a, float b => a == b
  | long a, long b => a == b
  | double a, double b => a == b
  | cls a, cls b => a == b
  | string a, string b => a == b
  | handle a, handle b => a == b
  | methodType a, methodType b => a == b
  | dynamic n d h args, dynamic n' d' h' args' =>
      n == n' && d == d' && h == h' && sameList args args'
  | _, _ => false

/-- Whether two lists of constants are the same. -/
def sameList : List Loadable → List Loadable → Bool
  | [], [] => true
  | a :: as, b :: bs => same a b && sameList as bs
  | _, _ => false

end

mutual

/-- Constants are the same exactly if they are equal. -/
theorem same_iff (a b : Loadable) : same a b = true ↔ a = b := by
  cases a <;> cases b <;> simp [same, and_assoc]
  case dynamic.dynamic args _ _ _ args' => simp [sameList_iff args args']

/-- Lists of constants are the same exactly if they are equal. -/
theorem sameList_iff (as bs : List Loadable) : sameList as bs = true ↔ as = bs := by
  cases as with
  | nil => cases bs <;> simp [sameList]
  | cons a as =>
      cases bs with
      | nil => simp [sameList]
      | cons b bs => simp [sameList, same_iff a b, sameList_iff as bs]

end

instance : DecidableEq Loadable := fun a b =>
  decidable_of_iff (same a b = true) (same_iff a b)

/-- Whether a value takes two slots on the stack. -/
def isWide : Loadable → Bool
  | long _ => true
  | double _ => true
  | dynamic _ descriptor _ _ => descriptor = "J" || descriptor = "D"
  | _ => false

end Loadable

/-- What a dynamic call site says: the name and type of the call, and how to link it. -/
structure CallSite where
  name : MethodName
  descriptor : MethodDescriptor
  bootstrap : Handle
  arguments : List Loadable
  deriving DecidableEq

end Downlevel
