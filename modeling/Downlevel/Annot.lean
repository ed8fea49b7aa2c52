import Downlevel.Name

/-!
# Annotations

An annotation has a type and named values, which can be annotations again.  A type annotation adds
which type of a declaration it is on, and where inside of that type.
-/

namespace Downlevel

/-- A value of an annotation. -/
inductive ElementValue where
  | byte (value : Int8)
  | char (value : UInt16)
  | double (bits : UInt64)
  | float (bits : UInt32)
  | int (value : Int32)
  | long (value : Int64)
  | short (value : Int16)
  | boolean (value : Bool)
  | string (value : String)
  /-- A constant of an enumeration. -/
  | constant (type : FieldDescriptor) (name : String)
  /-- A class, given by its descriptor; `V` stands for no class at all. -/
  | cls (descriptor : String)
  | nested (type : FieldDescriptor) (values : List (String × ElementValue))
  | array (values : List ElementValue)

namespace ElementValue

mutual

/-- Whether two values are the same. -/
def same : ElementValue → ElementValue → Bool
  | byte a, byte b => a == b
  | char a, char b => a == b
  | double a, double b => a == b
  | float a, float b => a == b
  | int a, int b => a == b
  | long a, long b => a == b
  | short a, short b => a == b
  | boolean a, boolean b => a == b
  | string a, string b => a == b
  | constant t n, constant t' n' => t == t' && n == n'
  | cls a, cls b => a == b
  | nested t vs, nested t' vs' => t == t' && samePairs vs vs'
  | array vs, array vs' => sameList vs vs'
  | _, _ => false

/-- Whether two lists of values are the same. -/
def sameList : List ElementValue → List ElementValue → Bool
  | [], [] => true
  | a :: as, b :: bs => same a b && sameList as bs
  | _, _ => false

/-- Whether two lists of named values are the same. -/
def samePairs : List (String × ElementValue) → List (String × ElementValue) → Bool
  | [], [] => true
  | (n, a) :: as, (m, b) :: bs => n == m && same a b && samePairs as bs
  | _, _ => false

end

mutual

/-- Values are the same exactly if they are equal. -/
theorem same_iff (a b : ElementValue) : same a b = true ↔ a = b := by
  cases a <;> cases b <;> simp [same]
  case nested.nested vs _ vs' => simp [samePairs_iff vs vs']
  case array.array vs vs' => simp [sameList_iff vs vs']

/-- Lists of values are the same exactly if they are equal. -/
theorem sameList_iff (as bs : List ElementValue) : sameList as bs = true ↔ as = bs := by
  cases as with
  | nil => cases bs <;> simp [sameList]
  | cons a as =>
      cases bs with
      | nil => simp [sameList]
      | cons b bs => simp [sameList, same_iff a b, sameList_iff as bs]

/-- Lists of named values are the same exactly if they are equal. -/
theorem samePairs_iff (as bs : List (String × ElementValue)) :
    samePairs as bs = true ↔ as = bs := by
  cases as with
  | nil => cases bs <;> simp [samePairs]
  | cons a as =>
      obtain ⟨n, a⟩ := a
      cases bs with
      | nil => simp [samePairs]
      | cons b bs =>
          obtain ⟨m, b⟩ := b
          simp [samePairs, same_iff a b, samePairs_iff as bs]

end

instance : DecidableEq ElementValue := fun a b =>
  decidable_of_iff (same a b = true) (same_iff a b)

end ElementValue

/-- An annotation: a type, and values with their names. -/
structure Annot where
  type : FieldDescriptor
  values : List (String × ElementValue)
  deriving DecidableEq

/-- The type of a declaration that a type annotation is on. -/
inductive AnnotTarget where
  | classTypeParameter (index : UInt8)
  | methodTypeParameter (index : UInt8)
  /-- An interface by its index, or the super class by the largest index. -/
  | supertype (index : UInt16)
  | classTypeParameterBound (parameter bound : UInt8)
  | methodTypeParameterBound (parameter bound : UInt8)
  | field
  | result
  | receiver
  | formalParameter (index : UInt8)
  | throws (index : UInt16)
  deriving DecidableEq

/-- A step into a type. -/
inductive PathStep where
  | array
  | nested
  | wildcard
  | typeArgument (index : UInt8)
  deriving DecidableEq

/-- An annotation on a part of a type. -/
structure TypeAnnot where
  target : AnnotTarget
  path : List PathStep
  body : Annot
  deriving DecidableEq

/-- The four lists of annotations that a declaration can have. -/
structure Annots where
  visible : List Annot := []
  invisible : List Annot := []
  visibleTypes : List TypeAnnot := []
  invisibleTypes : List TypeAnnot := []
  deriving DecidableEq, Inhabited

end Downlevel
