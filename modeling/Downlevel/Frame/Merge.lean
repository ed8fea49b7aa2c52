import Downlevel.Frame.Step

/-!
# Merging frames

Where two ways of execution meet, a value has a type that covers both: of two classes their common
super class, of two arrays an array of what covers their elements, and of things that have nothing
in common no usable type at all.  Which class two classes have in common is for others to say; they
may keep a memory of their own while they do.
-/

namespace Downlevel

/-- Something that knows the common super class of two classes.  It works on a state of type `σ`,
and is asked about two different classes only, none of which is an array. -/
structure SuperClasses (σ : Type) where
  common : ClassName → ClassName → Task σ ClassName

namespace SuperClasses

/-- Knows of no classes but the root of all of them. -/
def objectOnly (σ : Type) : SuperClasses σ where
  common a b := pure (if a = b then a else ClassName.javaObject)

end SuperClasses

namespace Frame

/-- The class of the elements of an array, given by the part of the array's name behind its first
bracket.  There is none if the elements are primitive. -/
def elementClass? : List Char → Option (List Char)
  | '[' :: rest => some ('[' :: rest)
  | 'L' :: rest => if rest.getLast? = some ';' then some rest.dropLast else none
  | _ => none

/-- The class of the elements has a shorter name than the array. -/
theorem length_elementClass? {element name : List Char} (h : elementClass? element = some name) :
    name.length ≤ element.length := by
  unfold elementClass? at h
  split at h
  · cases h
    simp
  · split at h
    · cases h
      simp
      omega
    · cases h
  · cases h

variable {σ : Type} (supers : SuperClasses σ)

/-- The class that covers two classes, given by the characters of their names. -/
def mergeNames (a b : List Char) : Task σ ClassName :=
  if a = b then pure (String.ofList a)
  else
    match a, b with
    | '[' :: elementA, '[' :: elementB =>
        match _h : elementClass? elementA, elementClass? elementB with
        | some nameA, some nameB => do
            return ClassName.arrayOf (← mergeNames nameA nameB)
        | _, _ => pure ClassName.javaObject
    | '[' :: _, _ => pure ClassName.javaObject
    | _, '[' :: _ => pure ClassName.javaObject
    | _, _ => supers.common (String.ofList a) (String.ofList b)
termination_by a.length
decreasing_by
  have := length_elementClass? _h
  simp
  omega

/-- The type that covers two types. -/
def mergeType (a b : VType) : Task σ VType :=
  if a = b then pure a
  else
    match a, b with
    | .null, .object name => pure (.object name)
    | .object name, .null => pure (.object name)
    | .object nameA, .object nameB => do
        return .object (← mergeNames supers nameA.toList nameB.toList)
    | _, _ => pure .top

/-- The types that cover the types of two lists one by one, from the front on, behind those in
`done` (last one first). -/
def mergeTypesFrom (done : List VType) : List VType → List VType → Task σ (List VType)
  | a :: as, b :: bs => do
      let first ← mergeType supers a b
      mergeTypesFrom (first :: done) as bs
  | _, _ => pure done.reverse

/-- The types that cover the types of two lists one by one, from the front on. -/
def mergeTypes (as bs : List VType) : Task σ (List VType) :=
  mergeTypesFrom supers [] as bs

/-- The frame that covers two frames, or nothing if the first does already.  Both must have as many
values on the stack.  The local variables are merged first, then the stack from its bottom up. -/
def merge (existing incoming : Frame) : Task σ (Option Frame) := do
  if existing.stack.length = incoming.stack.length then
    let locals ← mergeTypes supers existing.locals incoming.locals
    let stack ← mergeTypes supers existing.stack.reverse incoming.stack.reverse
    let merged : Frame := ⟨locals, stack.reverse⟩
    return if merged = existing then none else some merged
  else (fail (.frame .stackHeights) : Except Error (Option Frame))

end Frame

end Downlevel
