import Mathlib
import Downlevel.Proofs.Descriptor.Grammar
import Downlevel.Proofs.StackMap.Places

/-!
# Slots for arguments

A long or a double takes two slots, any other value one, and the receiver of a method one more.  The
size that is computed for the arguments of a method is a 16-bit number, and a descriptor that fits a
constant can have parameters for nearly twice as many slots: then the size starts again at zero, once.

What is written depends on the size in two places.  The number of local variables is at least the size;
where frames are computed, the arguments are counted again one by one when the first frame is made, so
that nothing too small comes through, but without frames nothing else looks at them.  The count that
goes with a call through an interface is the size, if that fits a byte.

* `MethodType.slots` — how many slots the arguments take;
* `MethodType.toNat_argumentsSize` — the size starts again at zero where the slots are too many;
* `Frame.slots_le_of_analyze` — whatever is analysed has room for its arguments;
* `Encode.code_slots` — what is written with code about slots;
* `MethodType.slots_counted` — **sizes are exact as long as there are less than 65536 slots**, and so is
  what is written.
-/

namespace Downlevel

/-- How many slots a value of a type takes. -/
def JavaType.slots (type : JavaType) : Nat :=
  if type = .long ∨ type = .double then 2 else 1

/-- How many slots the arguments of a method take, with the receiver if there is one. -/
def MethodType.slots (type : MethodType) (isStatic : Bool) : Nat :=
  (if isStatic then 0 else 1) + (type.parameters.map JavaType.slots).sum

/-! ## Sizes -/

/-- The size of a type is the number of its slots. -/
@[simp] theorem JavaType.toNat_size (type : JavaType) : type.size.toNat = type.slots := by
  unfold size slots
  by_cases hlong : type = long <;> by_cases hdouble : type = double <;> simp [hlong, hdouble]

/-- A value takes one slot or two. -/
theorem JavaType.slots_le (type : JavaType) : type.slots ≤ 2 := by
  unfold slots
  split <;> decide

/-- A value has as many slots in a frame as its type says. -/
theorem VType.length_slots_ofType (type : JavaType) :
    (VType.ofType type).slots.length = type.slots := by
  obtain ⟨dimensions, base⟩ := type
  cases dimensions with
  | zero => cases base <;> rfl
  | succ n => rfl

namespace MethodType

variable {type : MethodType} {isStatic : Bool} {descriptor : String}

/-- **The size of the arguments is the number of their slots**, up to multiples of 65536. -/
theorem toNat_argumentsSize (type : MethodType) (isStatic : Bool) :
    (type.argumentsSize isStatic).toNat = type.slots isStatic % 65536 := by
  have hsum (types : List JavaType) (total : UInt16) :
      (types.foldl (fun total t => total + t.size) total).toNat =
        (total.toNat + (types.map JavaType.slots).sum) % 65536 := by
    induction types generalizing total with
    | nil => exact (Nat.mod_eq_of_lt total.toNat_lt).symm
    | cons first types ih =>
        rw [List.foldl_cons, ih, UInt16.toNat_add, JavaType.toNat_size, List.map_cons, List.sum_cons]
        omega
  rw [argumentsSize, UInt16.toNat_add, hsum, slots]
  cases isStatic <;> simp

/-- The size is exact just as long as the slots are not too many. -/
theorem toNat_argumentsSize_eq_iff :
    (type.argumentsSize isStatic).toNat = type.slots isStatic ↔ type.slots isStatic < 65536 := by
  rw [toNat_argumentsSize]
  omega

/-- There are at most two slots for each parameter, and one for the receiver. -/
theorem slots_le (type : MethodType) (isStatic : Bool) :
    type.slots isStatic ≤ 2 * type.parameters.length + 1 := by
  have hsum : (type.parameters.map JavaType.slots).sum ≤ 2 * type.parameters.length := by
    have hle := List.sum_le_card_nsmul (type.parameters.map JavaType.slots) 2
      (List.forall_mem_map.mpr fun parameter _ => parameter.slots_le)
    rwa [List.length_map, smul_eq_mul, Nat.mul_comm] at hle
  unfold slots
  split <;> omega

/-- Each parameter takes a character of a descriptor at least. -/
theorem length_parameters_lt (h : parse descriptor = .ok type) :
    type.parameters.length + 3 ≤ descriptor.length := by
  obtain ⟨-, rfl⟩ := parse_eq_ok_iff.mp h
  have hparameters (types : List JavaType) :
      types.length ≤ (types.flatMap fun t => t.write.toList).length := by
    induction types with
    | nil => exact Nat.le_refl 0
    | cons first types ih =>
        obtain ⟨c, rest, hfirst, -⟩ := first.exists_write_eq_cons
        rw [List.flatMap_cons, List.length_append, hfirst, List.length_cons, List.length_cons]
        omega
  have hresult : 1 ≤ (writeResult type.result).length := by
    cases type.result with
    | none => exact Nat.le_refl 1
    | some result =>
        obtain ⟨c, rest, hfirst, -⟩ := result.exists_write_eq_cons
        simp [writeResult, hfirst]
  have hall := hparameters type.parameters
  rw [← String.length_toList, toList_write]
  simp only [List.length_cons, List.length_append]
  omega

/-- If a descriptor fits a constant, the size starts again at zero once at most. -/
theorem slots_lt_of_fits (h : parse descriptor = .ok type) (hfits : descriptor.length ≤ 65535) :
    type.slots isStatic < 2 * 65536 := by
  have hparameters := length_parameters_lt h
  have hslots := type.slots_le isStatic
  omega

end MethodType

/-! ## Local variables -/

namespace Frame

variable {σ : Type} {supers : SuperClasses σ} {cls : ClassName} {method : Method} {code : Code}
  {maxLocals : UInt16} {found : Analysis} {state state' : σ}

/-- **The arguments are counted one by one** when the first frame is made: there is none if the local
variables have no room for them. -/
theorem initial_of_lt {isStatic : Bool} {name : MethodName} {type : MethodType}
    (h : maxLocals.toNat < type.slots isStatic) :
    initial cls isStatic name type maxLocals =
      fail (.frame (.parametersTooLarge (type.slots isStatic) maxLocals)) := by
  unfold initial
  generalize hreceiver : (if isStatic then []
    else if name = MethodName.constructor && cls != ClassName.javaObject then
      [.uninitializedThis]
    else [.object cls] : List VType) = receiver
  have hself : receiver.length = if isStatic then 0 else 1 := by
    rw [← hreceiver]
    cases isStatic
    · simp only [Bool.false_eq_true, if_false]
      split <;> rfl
    · rfl
  have hlength : (receiver ++ type.parameters.flatMap fun t => (VType.ofType t).slots).length =
      type.slots isStatic := by
    rw [List.length_append, List.length_flatMap, hself]
    simp only [VType.length_slots_ofType]
    rfl
  dsimp only
  rw [hlength, if_pos h]

/-- Whatever is analysed has room for its arguments. -/
theorem slots_le_of_analyze {type : MethodType} (htype : MethodType.parse method.descriptor = .ok type)
    (h : analyze supers cls method code maxLocals state = (.ok found, state')) :
    type.slots method.access.isStatic ≤ maxLocals.toNat := by
  obtain ⟨-, known, first, -, hknown, hfirst, -⟩ :=
    analyze_settled (merges_any supers) (fun _ => keeps_reachable) .start h
  cases htype.symm.trans hknown
  refine Nat.not_lt.mp fun hfew => ?_
  rw [initial_of_lt hfew] at hfirst
  exact fail_ne_ok hfirst

end Frame

namespace Encode

open Pool

variable {σ : Type} {supers : SuperClasses σ} {computeFrames : Bool} {cls : ClassName}
  {method : Method} {code : Code} {maxLocals maxStack : UInt16} {pool pool' : Builder}
  {state state' : σ} {bytes : Bytes}

/-- A running maximum is at least what it starts with, and what comes in. -/
theorem le_foldl_max (entries : List Labelled) (start : Nat) :
    start ≤ entries.foldl (fun n entry => max n (slotsUsed entry.instruction)) start ∧
      ∀ entry ∈ entries, slotsUsed entry.instruction ≤
        entries.foldl (fun n entry => max n (slotsUsed entry.instruction)) start := by
  induction entries generalizing start with
  | nil => exact ⟨Nat.le_refl _, fun _ hnone => absurd hnone List.not_mem_nil⟩
  | cons entry entries ih =>
      obtain ⟨hstart, hrest⟩ := ih (max start (slotsUsed entry.instruction))
      refine ⟨Nat.le_trans (Nat.le_max_left _ _) hstart, List.forall_mem_cons.mpr ⟨?_, hrest⟩⟩
      exact Nat.le_trans (Nat.le_max_right _ _) hstart

/-- The number of local variables is at least the size of the arguments, and no instruction uses a slot
behind them. -/
theorem le_maxLocals (h : Encode.maxLocals method code = .ok maxLocals) :
    (∃ type, MethodType.parse method.descriptor = .ok type ∧
      type.argumentsSize method.access.isStatic ≤ maxLocals) ∧
      ∀ entry ∈ code.instructions, slotsUsed entry.instruction ≤ maxLocals.toNat := by
  obtain ⟨type, htype, hneeded⟩ := bind_eq_ok.mp h
  obtain ⟨hsize, hused⟩ := le_foldl_max code.instructions
    (type.argumentsSize method.access.isStatic).toNat
  dsimp only at hneeded
  split at hneeded
  next hsmall =>
    obtain rfl := pure_eq_ok.mp hneeded
    rw [Nat.toUInt16_eq, UInt16.toNat_ofNat', Nat.mod_eq_of_lt hsmall]
    exact ⟨⟨type, htype, by rwa [UInt16.le_iff_toNat_le, UInt16.toNat_ofNat', Nat.mod_eq_of_lt hsmall]⟩,
      hused⟩
  next => exact absurd hneeded fail_ne_ok

/-! ## What is written -/

/-- **Bytes of code stand where its instructions start.**  There are as many of them as the layout says,
and those of an instruction that can be reached stand where it starts, whether or not frames are known. -/
theorem hasAt_bytes {frames : Option (Array (Option Frame))}
    (hframes : ∀ known, frames = some known → Found code known) {layout : Layout}
    {placed : List (Option Label × CodeItem)}
    (hitems : items code.instructions pool = .ok (placed, pool'))
    (hlayout : Layout.ofItems placed code.lastLabel = .ok layout) :
    (Context.mk code layout frames).bytes.length = layout.size ∧
      ∀ (index : Nat) (chunk : Bytes), layout.chunks[index]? = some chunk → code.Reachable index →
        HasAt (Context.mk code layout frames).bytes (layout.offsetOf index) chunk := by
  cases frames with
  | some known =>
      have hbody := (hframes known rfl).neutralised hitems hlayout
      exact ⟨hbody.length, hbody.kept⟩
  | none =>
      obtain ⟨hcount, hsize, -, hoffset, -⟩ := Layout.ofItems_starts hlayout
      have hlength : (code.instructions.map fun _ => true).length = layout.chunks.length := by
        rw [List.length_map, hcount, (items_ne_nil hitems).1]
      refine ⟨?_, fun index chunk hchunk _ => ?_⟩
      · rw [Context.bytes, length_liveBytes, Nat.zero_add, hsize]
        exact congrArg (fun chunks : List Bytes => chunks.flatten.length)
          (List.map_snd_zip hlength.ge)
      · rw [hoffset]
        have hlt := hlength ▸ (List.getElem?_eq_some_iff.mp hchunk).1
        refine liveBytes_keeps hlength ?_ hchunk
        rw [List.length_map] at hlt
        simp [hlt]

/-- The count that goes with a call through an interface is the size of the arguments, with the
receiver. -/
theorem item_invokeinterface {target : MethodRef} {next : CodeItem}
    (h : item (.invokeinterface target) pool = .ok (next, pool')) :
    ∃ called ref count, MethodType.parse target.descriptor = .ok called ∧
      next = .plain (0xb9 :: (Bytes.ofU16 ref ++ [count, 0])) ∧
      count.toNat = (called.argumentsSize false).toNat := by
  obtain ⟨ref, _, -, h⟩ := work_bind_eq_ok.mp h
  obtain ⟨called, _, hlift, h⟩ := work_bind_eq_ok.mp h
  obtain ⟨hcalled, rfl⟩ := work_lift_eq_ok.mp hlift
  split at h
  next hsmall =>
    obtain ⟨rfl, -⟩ := work_pure_eq_ok.mp h
    refine ⟨called, ref, _, hcalled, rfl, ?_⟩
    rw [UInt16.toNat_toUInt8]
    exact Nat.mod_eq_of_lt hsmall
  next => cases h

/-- **What is written with code about slots.**  The number of local variables is at least that of the
slots for the arguments, if frames are computed or there are less than 65536 slots.  The count that goes
with a call through an interface is that of the slots for its arguments, if there are less than 65536
slots. -/
def SlotsWritten (computeFrames : Bool) (method : Method) (code : Code) (pool : Builder)
    (bytes : Bytes) : Prop :=
  ∃ type maxStack maxLocals placed filled layout body rest,
    MethodType.parse method.descriptor = .ok type ∧
    items code.instructions pool = .ok (placed, filled) ∧
    Layout.ofItems placed code.lastLabel = .ok layout ∧
    bytes = Bytes.ofU16 maxStack ++ Bytes.ofU16 maxLocals ++
      (Bytes.ofU32 layout.size.toUInt32 ++ body ++ rest) ∧
    body.length = layout.size ∧
    (computeFrames = true ∨ type.slots method.access.isStatic < 65536 →
      type.slots method.access.isStatic ≤ maxLocals.toNat) ∧
    ∀ index entry target, code.instructions[index]? = some entry →
      entry.instruction = .invokeinterface target →
        ∃ called ref count, MethodType.parse target.descriptor = .ok called ∧
          (code.Reachable index →
            HasAt body (layout.offsetOf index) (0xb9 :: (Bytes.ofU16 ref ++ [count, 0]))) ∧
          (count.toNat = called.slots false ↔ called.slots false < 65536)

/-- What is written with code about slots, wherever code is written. -/
theorem code_slots (h : Encode.code supers computeFrames cls method code pool state =
    (.ok (bytes, pool'), state')) : SlotsWritten computeFrames method code pool bytes := by
  obtain ⟨maxLocals, maxStack, frames, body, hlocals, hanalysis, hbody, rfl⟩ := code_run.mp h
  obtain ⟨⟨type, htype, hsize⟩, -⟩ := le_maxLocals hlocals
  have hfound := analysis_found hanalysis
  have hframes : ∀ known, frames = some known → Found code known := by
    rintro known rfl
    rcases hfound with ⟨asked, found, heq, hrun⟩ | ⟨hnone, -⟩
    · cases heq
      exact ⟨Frame.analyze_size hrun, (Frame.analyze_reachable hrun).1⟩
    · cases hnone
  obtain ⟨placed, filled, layout, indices, table, between, attributes, rest, hitems, hlayout,
    -, -, -, -, rfl⟩ := codeBody_eq_ok hbody
  obtain ⟨hlength, hkept⟩ := hasAt_bytes hframes hitems hlayout
  refine ⟨type, maxStack, maxLocals, placed, filled, layout, _, table ++ rest, htype, hitems, hlayout,
    by simp only [List.append_assoc], hlength, fun henough => ?_, ?_⟩
  · rcases hfound with ⟨asked, found, -, hrun⟩ | ⟨-, hplain⟩
    · exact Frame.slots_le_of_analyze htype hrun
    · have hfew : type.slots method.access.isStatic < 65536 := henough.resolve_left (by simp [hplain])
      rw [← MethodType.toNat_argumentsSize_eq_iff.mpr hfew]
      exact UInt16.le_iff_toNat_le.mp hsize
  · rintro index entry target hentry hcall
    obtain ⟨⟨label, next⟩, hplaced, -, before, behind, hitem⟩ := items_getElem? hitems hentry
    rw [hcall] at hitem
    obtain ⟨called, ref, count, hcalled, hnext, hcount⟩ := item_invokeinterface hitem
    dsimp only at hnext
    subst hnext
    refine ⟨called, ref, count, hcalled, fun hreach => ?_, ?_⟩
    · obtain ⟨chunk, hchunk⟩ : ∃ chunk, layout.chunks[index]? = some chunk := by
        have hlt := (List.getElem?_eq_some_iff.mp hplaced).1
        rw [← (Layout.ofItems_starts hlayout).1] at hlt
        exact ⟨_, List.getElem?_eq_getElem hlt⟩
      obtain ⟨known, start, hfilled⟩ := Layout.chunk_of_item hlayout hplaced hchunk
      rw [← hfilled.plain]
      exact hkept index chunk hchunk hreach
    · rw [hcount, MethodType.toNat_argumentsSize_eq_iff]

/-- Code without frames is written with the size of the stack that it has, if its analysis gives up. -/
theorem code_unanalysed {error : Error} {between : σ} {body : Bytes}
    (hlocals : Encode.maxLocals method code = .ok maxLocals)
    (hanalyze : Frame.analyze (SuperClasses.objectOnly σ) cls method code maxLocals state =
      (.error error, between))
    (hfatal : error.isFatal = false) (hstack : code.maxStack = some maxStack)
    (hbody : codeBody false code none pool = .ok (body, pool')) :
    Encode.code supers false cls method code pool state =
      (.ok (Bytes.ofU16 maxStack ++ Bytes.ofU16 maxLocals ++ body, pool'), between) := by
  refine code_run.mpr ⟨maxLocals, maxStack, none, body, hlocals, ?_, hbody, rfl⟩
  simp [analysis, hanalyze, hfatal, hstack]

end Encode

/-- **Sizes are exact as long as there are less than 65536 slots.**  For every descriptor that is
accepted, the size of the arguments is the number of their slots up to multiples of 65536; if the
descriptor fits a constant, then the size starts again at zero once at most.  Where code is written, the
number of local variables and the counts of calls through interfaces are exact under the same
condition, and where frames are computed no more is needed for the local variables. -/
theorem MethodType.slots_counted {σ : Type} (supers : SuperClasses σ) (computeFrames : Bool)
    (cls : ClassName) (method : Method) (code : Code) (descriptor : String) (isStatic : Bool) :
    (∀ type : MethodType, parse descriptor = .ok type →
      ((type.argumentsSize isStatic).toNat = type.slots isStatic ↔ type.slots isStatic < 65536) ∧
        (descriptor.length ≤ 65535 → 65536 ≤ type.slots isStatic →
          (type.argumentsSize isStatic).toNat + 65536 = type.slots isStatic)) ∧
    ∀ (pool pool' : Pool.Builder) (state state' : σ) (bytes : Bytes),
      Encode.code supers computeFrames cls method code pool state = (.ok (bytes, pool'), state') →
        Encode.SlotsWritten computeFrames method code pool bytes := by
  refine ⟨fun type hparse => ⟨toNat_argumentsSize_eq_iff, fun hfits hmany => ?_⟩,
    fun _ _ _ _ _ => Encode.code_slots⟩
  have hslots : type.slots isStatic < 2 * 65536 := slots_lt_of_fits hparse hfits
  rw [toNat_argumentsSize]
  omega

section Example

open Encode

/-! ### Slots that are counted, and slots that are not -/

/-- Code that takes a value from an empty stack, and then calls a method through an interface. -/
def callingCode : Code where
  maxStack := some 0
  instructions := [⟨none, .op .pop⟩, ⟨none, .invokeinterface ⟨"a/I", "g", "(JI)V"⟩⟩,
    ⟨none, .op .returnVoid⟩]

/-- A method with that code. -/
def callingMethod : Method where
  access := {}
  name := "f"
  descriptor := "(JD)V"
  code := some callingCode

/-- The method is written with five local variables, and four slots for what is called. -/
theorem slots_counted_callingMethod :
    (∃ pool, Encode.code (SuperClasses.objectOnly Unit) false "a/A" callingMethod callingCode {} () =
      (.ok ([0x00, 0x00, 0x00, 0x05, 0x00, 0x00, 0x00, 0x07, 0x57, 0xb9, 0x00, 0x06, 0x04, 0x00, 0xb1,
        0x00, 0x00, 0x00, 0x00], pool), ())) ∧
      SlotsWritten false callingMethod callingCode {}
        [0x00, 0x00, 0x00, 0x05, 0x00, 0x00, 0x00, 0x07, 0x57, 0xb9, 0x00, 0x06, 0x04, 0x00, 0xb1,
          0x00, 0x00, 0x00, 0x00] := by
  have hrun : ((Encode.code (SuperClasses.objectOnly Unit) false "a/A" callingMethod callingCode {}
      ()).1.toOption.any fun out => out.1 = [0x00, 0x00, 0x00, 0x05, 0x00, 0x00, 0x00, 0x07, 0x57, 0xb9,
        0x00, 0x06, 0x04, 0x00, 0xb1, 0x00, 0x00, 0x00, 0x00]) = true := by cbv
  obtain ⟨⟨bytes, pool⟩, hcode, hbytes⟩ := exists_of_any hrun
  obtain rfl : bytes = _ := of_decide_eq_true hbytes
  have hcode : Encode.code (SuperClasses.objectOnly Unit) false "a/A" callingMethod callingCode {} () =
      (_, ()) := Prod.ext hcode rfl
  have hslots := MethodType.slots_counted (SuperClasses.objectOnly Unit) false "a/A" callingMethod
    callingCode callingMethod.descriptor false
  exact ⟨⟨pool, hcode⟩, hslots.2 _ _ _ _ _ hcode⟩

/-- The type of a method that takes some longs. -/
def longs (n : Nat) : MethodType :=
  ⟨List.replicate n .long, none⟩

/-- There are two slots for each parameter. -/
theorem slots_longs (n : Nat) : (longs n).slots true = 2 * n := by
  have hlong : JavaType.slots .long = 2 := rfl
  simp [MethodType.slots, longs, hlong, Nat.mul_comm]

/-- Each parameter is one letter of the descriptor. -/
theorem parse_longs (n : Nat) :
    (longs n).write.length = n + 3 ∧ MethodType.parse (longs n).write = .ok (longs n) := by
  have hlong : JavaType.long.write.toList = ['J'] := rfl
  have hnone : ∀ result, (longs n).result = some result → result.Valid := by
    rintro _ ⟨⟩
  refine ⟨?_, MethodType.parse_eq_ok_iff.mpr ⟨⟨fun parameter hmem => ?_, hnone⟩, rfl⟩⟩
  · rw [← String.length_toList, MethodType.toList_write]
    simp [longs, MethodType.writeResult, hlong]
  · obtain rfl := List.eq_of_mem_replicate hmem
    exact ⟨by decide, by rintro _ ⟨⟩⟩

/-- As many parameters as take one slot more than a 16-bit number can count. -/
def manyLongs : MethodType :=
  longs 32768

/-- Code that does nothing. -/
def idleCode : Code where
  maxStack := some 0
  instructions := [⟨none, .op .returnVoid⟩]

/-- A method with these parameters and that code. -/
def manyLongsMethod : Method where
  access := { isStatic := true }
  name := "f"
  descriptor := manyLongs.write
  code := some idleCode

/-- **A method loses its slots.**  Its parameters take 65536 slots, their size is zero, and if no frames
are computed then the method is written without local variables. -/
theorem slots_lost_manyLongs : manyLongs.write.length = 32771 ∧
    MethodType.parse manyLongs.write = .ok manyLongs ∧
    manyLongs.slots true = 65536 ∧ manyLongs.argumentsSize true = 0 ∧
    Encode.code (SuperClasses.objectOnly Unit) false "a/A" manyLongsMethod idleCode {} () =
      (.ok ([0x00, 0x00, 0x00, 0x00, 0x00, 0x00, 0x00, 0x01, 0xb1, 0x00, 0x00, 0x00, 0x00], {}), ()) := by
  obtain ⟨hlength, hparse⟩ : manyLongs.write.length = 32771 ∧
      MethodType.parse manyLongs.write = .ok manyLongs := parse_longs 32768
  have hslots : manyLongs.slots true = 65536 := slots_longs 32768
  have hsize : manyLongs.argumentsSize true = 0 := by
    rw [← UInt16.toNat_inj, MethodType.toNat_argumentsSize, hslots]
    rfl
  have hlocals : Encode.maxLocals manyLongsMethod idleCode = .ok 0 := by
    refine bind_eq_ok.mpr ⟨manyLongs, hparse, ?_⟩
    have hsize : manyLongs.argumentsSize manyLongsMethod.access.isStatic = 0 := hsize
    rw [hsize]
    rfl
  have hanalyze : Frame.analyze (SuperClasses.objectOnly Unit) "a/A" manyLongsMethod idleCode 0 () =
      (fail (.frame (.parametersTooLarge (manyLongs.slots true) 0)), ()) := by
    unfold Frame.analyze
    rw [if_neg (by decide)]
    refine (task_bind_of_ok rfl).trans ?_
    have hparse : MethodType.parse manyLongsMethod.descriptor = .ok manyLongs := hparse
    rw [hparse]
    refine (task_bind_of_ok rfl).trans (task_bind_of_error ?_)
    rw [Frame.initial_of_lt]
    · rfl
    · show 0 < manyLongs.slots true
      rw [hslots]
      decide
  have hbody : codeBody false idleCode none {} =
      .ok ([0x00, 0x00, 0x00, 0x01, 0xb1, 0x00, 0x00, 0x00, 0x00], {}) := rfl
  exact ⟨hlength, hparse, hslots, hsize, code_unanalysed hlocals hanalyze rfl rfl hbody⟩

end Example

end Downlevel
