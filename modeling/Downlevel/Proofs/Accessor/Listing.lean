import Downlevel.Lower.Constants
import Downlevel.Proofs.Accessor.Threads

/-!
# The accessor of a constant, instruction by instruction

The accessor is written as pieces with labels.  Here is what it is once they are put together: a
part in front of the call of the bootstrap method, the call, and a part behind it.

* `Constants.ofPieces_accessor` — the code as a list;
* `Constants.fetch_front`, `Constants.fetch_back` — what stands at an index;
* `Constants.indexOf_finished` and the like — where jumps go;
* `Constants.unwind_guarded`, `Constants.unwind_free` — where something thrown goes.
-/

namespace Downlevel

open Threads

/-- Renaming nothing changes nothing. -/
@[simp] theorem Instruction.mapLabels_id (instruction : Instruction) :
    instruction.mapLabels id = instruction := by
  cases instruction <;> simp [mapLabels]

/-- Pushing instructions when no label waits for one. -/
theorem Assembly.foldl_push (instructions : List Instruction) {assembly : Assembly}
    (h : assembly.pending = none) :
    (instructions.map Piece.push).foldl Assembly.add assembly =
      { assembly with
        instructions :=
          (instructions.map Instruction.plain).reverse ++ assembly.instructions } := by
  induction instructions generalizing assembly with
  | nil => rfl
  | cons instruction rest ih =>
      have hadd : assembly.add (.push instruction) =
          { assembly with instructions := instruction.plain :: assembly.instructions } := by
        simp [add, h, Instruction.plain]
      simp only [List.map_cons, List.foldl_cons, hadd]
      refine (ih ?_).trans ?_
      · exact h
      · simp

namespace Constants

section Listing

variable (cls : ClassName) (name : String) (constant : Dynamic) (type : JavaType)
  (compute : List Instruction)

/-- The field with the value of a constant. -/
def valueField : FieldRef := ⟨cls, name, constant.descriptor⟩

/-- The field that tells whether the value was computed. -/
def flagField : FieldRef := ⟨cls, flagName name, "Z"⟩

/-- The field with the object to lock. -/
def lockField : FieldRef := ⟨cls, lockName name, lockDescriptor⟩

/-- The accessor in front of the call. -/
def accessorFront : List Labelled :=
  [⟨none, .field .getStatic (flagField cls name)⟩, ⟨none, .branch .ne ⟨0⟩⟩,
    ⟨none, .field .getStatic (lockField cls name)⟩, ⟨none, .op .dup⟩, ⟨none, Fragment.astore 0⟩,
    ⟨none, .op .monitorenter⟩,
    ⟨some ⟨2⟩, .field .getStatic (flagField cls name)⟩, ⟨none, .branch .ne ⟨1⟩⟩]

/-- The accessor behind the call. -/
def accessorBack : List Labelled :=
  [⟨none, .field .putStatic (valueField cls name constant)⟩, ⟨none, .op .iconst1⟩,
    ⟨none, .field .putStatic (flagField cls name)⟩,
    ⟨some ⟨1⟩, Fragment.aload 0⟩, ⟨none, .op .monitorexit⟩,
    ⟨some ⟨3⟩, .goto ⟨0⟩⟩,
    ⟨some ⟨4⟩, Fragment.astore 1⟩, ⟨none, Fragment.aload 0⟩, ⟨none, .op .monitorexit⟩,
    ⟨none, .new bootstrapError⟩, ⟨none, .op .dup⟩, ⟨none, Fragment.aload 1⟩,
    ⟨none, .invokespecial
      ⟨bootstrapError, MethodName.constructor, "(Ljava/lang/Throwable;)V"⟩ false⟩,
    ⟨none, .op .athrow⟩,
    ⟨some ⟨0⟩, .field .getStatic (valueField cls name constant)⟩,
    ⟨none, Fragment.returnValue type⟩]

/-- The code of an accessor with the given call. -/
def accessorListing : Code where
  instructions :=
    accessorFront cls name ++ compute.map Instruction.plain ++
      accessorBack cls name constant type
  exceptions := [⟨⟨2⟩, ⟨3⟩, ⟨4⟩, none⟩]

/-- **The pieces of an accessor** make the parts in front of the call and behind it, with the call
between them. -/
theorem ofPieces_accessor :
    Code.ofPieces (accessorPieces cls name constant type compute) =
      accessorListing cls name constant type compute := by
  have hfold : (accessorPieces cls name constant type compute).foldl Assembly.add {} =
      { instructions := (accessorListing cls name constant type compute).instructions.reverse
        exceptions := [⟨⟨2⟩, ⟨3⟩, ⟨4⟩, none⟩] } := by
    simp only [accessorPieces, Piece.sequence, List.map_append, List.foldl_append]
    rw [Assembly.foldl_push compute (by rfl)]
    simp [Assembly.add, accessorListing, accessorFront, accessorBack, valueField, flagField,
      lockField]
  have hresolve : ∀ assembly : Assembly, assembly.aliases = [] → assembly.resolve = id := by
    intro assembly hnone
    funext label
    simp [Assembly.resolve, hnone]
  unfold Code.ofPieces
  rw [hfold, Assembly.finish, hresolve _ rfl]
  simp [accessorListing]

end Listing

section Places

variable {cls : ClassName} {name : String} {constant : Dynamic} {type : JavaType}
  {compute : List Instruction} {V : Type}

/-- What stands in front of the call. -/
theorem fetch_front {index : Nat} (h : index < 8) :
    (accessorListing cls name constant type compute).instructions[index]? =
      (accessorFront cls name)[index]? := by
  have hlength : (accessorFront cls name).length = 8 := rfl
  rw [accessorListing, List.append_assoc, List.getElem?_append_left (by omega)]

/-- What stands behind the call. -/
theorem fetch_back (offset : Nat) :
    (accessorListing cls name constant type compute).instructions[8 + compute.length + offset]? =
      (accessorBack cls name constant type)[offset]? := by
  have hlength : (accessorFront cls name ++ compute.map Instruction.plain).length =
      8 + compute.length := by
    rw [List.length_append, List.length_map]
    rfl
  rw [accessorListing, List.getElem?_append_right (by omega), hlength, Nat.add_sub_cancel_left]

/-- What is between the two is the call. -/
theorem call_of_listing :
    ((accessorListing cls name constant type compute).instructions.drop 8).take compute.length =
      compute.map Instruction.plain := by
  have hdrop : (accessorListing cls name constant type compute).instructions.drop 8 =
      compute.map Instruction.plain ++ accessorBack cls name constant type := by
    rw [accessorListing, List.append_assoc]
    exact List.drop_left' rfl
  rw [hdrop]
  exact List.take_left' (List.length_map _)

/-- A label that does not stand in front of the call stands behind it. -/
theorem indexOf_back {label : Label} {offset : Nat}
    (hfront : (accessorFront cls name).findIdx? (fun entry => entry.label = some label) = none)
    (hback : (accessorBack cls name constant type).findIdx?
      (fun entry => entry.label = some label) = some offset) :
    indexOf? (accessorListing cls name constant type compute) label =
      some (8 + compute.length + offset) := by
  have hcall : (compute.map Instruction.plain).findIdx?
      (fun entry => decide (entry.label = some label)) = none := by
    rw [List.findIdx?_eq_none_iff]
    intro entry hmem
    obtain ⟨instruction, _, rfl⟩ := List.mem_map.mp hmem
    rfl
  have hlength : (accessorFront cls name ++ compute.map Instruction.plain).length =
      8 + compute.length := by
    rw [List.length_append, List.length_map]
    rfl
  rw [indexOf?, accessorListing, List.findIdx?_append, List.findIdx?_append, hfront, hcall, hback,
    hlength]
  simp [Nat.add_comm]

/-- Where the value is given back. -/
@[simp] theorem indexOf_finished :
    indexOf? (accessorListing cls name constant type compute) ⟨0⟩ =
      some (8 + compute.length + 14) :=
  indexOf_back rfl rfl

/-- Where the lock is given back. -/
@[simp] theorem indexOf_unlock :
    indexOf? (accessorListing cls name constant type compute) ⟨1⟩ =
      some (8 + compute.length + 3) :=
  indexOf_back rfl rfl

/-- Where exceptions begin to be caught. -/
@[simp] theorem indexOf_start :
    indexOf? (accessorListing cls name constant type compute) ⟨2⟩ = some 6 := by
  rw [indexOf?, accessorListing, List.append_assoc, List.findIdx?_append]
  rfl

/-- Where exceptions are caught no more. -/
@[simp] theorem indexOf_stop :
    indexOf? (accessorListing cls name constant type compute) ⟨3⟩ =
      some (8 + compute.length + 5) :=
  indexOf_back rfl rfl

/-- Where caught exceptions go. -/
@[simp] theorem indexOf_handler :
    indexOf? (accessorListing cls name constant type compute) ⟨4⟩ =
      some (8 + compute.length + 6) :=
  indexOf_back rfl rfl

/-- What is thrown while the lock is held goes to the handler. -/
theorem unwind_guarded {index : Nat} (hfrom : 6 ≤ index) (hto : index < 8 + compute.length + 5)
    (exception : Value V) (locals : UInt16 → Option (Value V)) :
    unwind (accessorListing cls name constant type compute) index exception locals =
      .running ⟨8 + compute.length + 6, [exception], locals⟩ := by
  have hcatches : catchesAt (accessorListing cls name constant type compute) index
      ⟨⟨2⟩, ⟨3⟩, ⟨4⟩, none⟩ = true := by
    simp [catchesAt, hfrom, hto]
  have hfind : (accessorListing cls name constant type compute).exceptions.find?
      (catchesAt (accessorListing cls name constant type compute) index) =
        some ⟨⟨2⟩, ⟨3⟩, ⟨4⟩, none⟩ :=
    List.find?_cons_of_pos hcatches
  simp [unwind, hfind]

/-- What the handler throws leaves the accessor. -/
theorem unwind_free {index : Nat} (h : 8 + compute.length + 5 ≤ index)
    (exception : Value V) (locals : UInt16 → Option (Value V)) :
    unwind (accessorListing cls name constant type compute) index exception locals =
      .threw exception := by
  have hcatches : ¬ catchesAt (accessorListing cls name constant type compute) index
      ⟨⟨2⟩, ⟨3⟩, ⟨4⟩, none⟩ = true := by
    simp [catchesAt]
    omega
  have hfind : (accessorListing cls name constant type compute).exceptions.find?
      (catchesAt (accessorListing cls name constant type compute) index) = none :=
    (List.find?_cons_of_neg hcatches).trans rfl
  simp [unwind, hfind]

/-- The flag is not the value. -/
theorem flagField_ne_valueField : flagField cls name ≠ valueField cls name constant := by
  intro h
  have hname : "has$" ++ name = name := congrArg FieldRef.name h
  have hlength := congrArg String.length hname
  rw [String.length_append] at hlength
  have hfour : "has$".length = 4 := rfl
  omega

/-- The lock is not the value. -/
theorem lockField_ne_valueField : lockField cls name ≠ valueField cls name constant := by
  intro h
  have hname : "lock$" ++ name = name := congrArg FieldRef.name h
  have hlength := congrArg String.length hname
  rw [String.length_append] at hlength
  have hfive : "lock$".length = 5 := rfl
  omega

/-- The lock is not the flag. -/
theorem lockField_ne_flagField : lockField cls name ≠ flagField cls name := by
  intro h
  have hdescriptor : lockDescriptor = "Z" := congrArg FieldRef.descriptor h
  exact absurd hdescriptor (by decide)

end Places

end Constants

end Downlevel
