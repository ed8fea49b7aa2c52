import Downlevel.Decode.Instruction
import Downlevel.Encode.Instruction
import Downlevel.Proofs.Pool.Loadable
import Downlevel.Proofs.RoundTrip.Attribute

/-!
# Instructions that are written and read again

An instruction is written in two steps: everything but the distances of jumps first, as an item, and
the distances once all items have a place.  This file is about the first step.  An item *stands for*
an instruction if its bytes are read as that instruction, or, for jumps, if it is the same jump.
A reader checks the names in an instruction and how deep dynamic constants are nested.  The
instructions that pass are written as items that stand for them; which of several encodings the item
chooses makes no difference to the reader.

* `Instruction.Readable` — the operands of an instruction pass what a reader checks;
* `kept_of_readable` — such an instruction is written as an item that stands for it;
* `gives_instruction` — every instruction that is read is one of these.
-/

namespace Downlevel

/-- The operands of an instruction pass what a reader checks, but for its labels. -/
def Instruction.Readable : Instruction → Prop
  | .ldc value => value.Readable Pool.Table.nestingLimit
  | .field _ target => target.Valid
  | .invokevirtual target => target.Valid
  | .invokespecial target _ => target.Valid
  | .invokestatic target _ => target.Valid
  | .invokeinterface target => target.Valid
  | .invokedynamic site => site.Readable
  | .new name => Name.isValid .className name
  | .anewarray name => Name.isValid .className name
  | .checkcast name => Name.isValid .className name
  | .instanceof name => Name.isValid .className name
  | .multianewarray name _ => Name.isValid .className name
  | _ => True

/-- Whether the operands of an instruction pass does not depend on its labels. -/
theorem Instruction.Readable.mapLabels {instruction : Instruction} (h : instruction.Readable)
    (f : Label → Label) : (instruction.mapLabels f).Readable := by
  cases instruction with
  | branch | goto | jsr | tableswitch | lookupswitch => trivial
  | _ => exact h

namespace Encode

open Pool PoolM Parse

/-- Reading an instruction of code of some length at a position. -/
abbrev readInstruction (constants : Constants) (length : UInt16) (position : Nat) :
    Parse Instruction :=
  Decode.instruction constants.table constants.bootstraps length position

/-- The item stands for the instruction. -/
def Stands (constants : Constants) (instruction : Instruction) : CodeItem → Prop
  | .plain bytes => (∀ f, instruction.mapLabels f = instruction) ∧
      ∀ length position, Reads (readInstruction constants length position) bytes instruction
  | .branch condition target => instruction = .branch condition target
  | .jump opcode wideOpcode target =>
      (opcode = 0xa7 ∧ wideOpcode = 0xc8 ∧ instruction = .goto target) ∨
        (opcode = 0xa8 ∧ wideOpcode = 0xc9 ∧ instruction = .jsr target)
  | .table fallback low high targets => instruction = .tableswitch fallback low high targets ∧
      ¬ high < low ∧ targets.length = (high.toInt - low.toInt + 1).toNat
  | .lookup fallback cases => instruction = .lookupswitch fallback cases

/-- The instruction is written as an item that stands for it. -/
def KeptInstruction (instruction : Instruction) : Prop :=
  Puts (item instruction) fun constants item => Stands constants instruction item

/-- An instruction is read by its opcode and its operands. -/
theorem reads_instruction {constants : Constants} {length : UInt16} {position : Nat}
    {opcode : UInt8} {bytes : Bytes} {instruction : Instruction}
    (h : Reads (Decode.operands constants.table constants.bootstraps length position opcode)
      bytes instruction) :
    Reads (readInstruction constants length position) (opcode :: bytes) instruction :=
  (reads_u8 opcode).bind h

section Plain

/-- An instruction whose bytes do not depend on the pool. -/
theorem kept_of_bytes {instruction : Instruction} {bytes : Bytes}
    (hitem : item instruction = pure (.plain bytes))
    (hlabels : ∀ f, instruction.mapLabels f = instruction)
    (h : ∀ constants length position,
      Reads (readInstruction constants length position) bytes instruction) :
    KeptInstruction instruction := by
  unfold KeptInstruction
  rw [hitem]
  exact puts_pure fun constants => ⟨hlabels, h constants⟩

/-- An instruction with an index of the pool. -/
theorem kept_of_index {instruction : Instruction} {opcode : UInt8} {work : PoolM UInt16}
    {Q : Constants → UInt16 → Prop} (hitem : item instruction = withIndex opcode work)
    (hlabels : ∀ f, instruction.mapLabels f = instruction) (hwork : Puts work Q)
    (h : ∀ constants length position index, Q constants index →
      Reads (Decode.operands constants.table constants.bootstraps length position opcode)
        (Bytes.ofU16 index) instruction) :
    KeptInstruction instruction := by
  unfold KeptInstruction
  rw [hitem]
  exact hwork.map fun constants index hQ => ⟨hlabels, fun length position =>
    reads_instruction (h constants length position index hQ)⟩

/-- An instruction without operands is kept. -/
theorem kept_op (op : Op) : KeptInstruction (.op op) := by
  refine kept_of_bytes rfl (fun _ => rfl) fun constants length position => reads_instruction ?_
  have hoperands : Decode.operands constants.table constants.bootstraps length position op.opcode =
      pure (.op op) := by
    simp only [Decode.operands, Op.ofOpcode?_opcode]
  rw [hoperands]
  exact reads_pure _

/-- Pushing a byte is kept. -/
theorem kept_bipush (value : Int8) : KeptInstruction (.bipush value) :=
  kept_of_bytes rfl (fun _ => rfl) fun _ _ _ =>
    reads_instruction ((reads_i8 value).map Instruction.bipush)

/-- Pushing a short is kept. -/
theorem kept_sipush (value : Int16) : KeptInstruction (.sipush value) :=
  kept_of_bytes rfl (fun _ => rfl) fun _ _ _ =>
    reads_instruction ((reads_i16 value).map Instruction.sipush)

/-- A new array of primitive elements is kept. -/
theorem kept_newarray (element : Primitive) : KeptInstruction (.newarray element) := by
  refine kept_of_bytes rfl (fun _ => rfl) fun _ _ _ => reads_instruction ?_
  refine (reads_u8 element.code).finish ?_
  cases element <;> exact reads_pure _

/-- A slot that fits into a byte is the slot of that byte. -/
theorem toUInt8_toUInt16_of_lt {slot : UInt16} (h : slot < 256) : slot.toUInt8.toUInt16 = slot := by
  apply UInt16.toNat_inj.mp
  have hlt : slot.toNat < 256 := UInt16.lt_iff_toNat_lt.mp h
  simp only [UInt8.toNat_toUInt16, UInt16.toNat_toUInt8]
  omega

/-- A slot below four is one of four. -/
theorem slot_cases {slot : UInt16} (h : slot < 4) : slot = 0 ∨ slot = 1 ∨ slot = 2 ∨ slot = 3 := by
  have hlt : slot.toNat < 4 := UInt16.lt_iff_toNat_lt.mp h
  simp only [← UInt16.toNat_inj]
  show slot.toNat = 0 ∨ slot.toNat = 1 ∨ slot.toNat = 2 ∨ slot.toNat = 3
  omega

/-- A number that fits into a byte is the number of that byte. -/
theorem toInt8_toInt16_of_le {delta : Int16} (hlow : -128 ≤ delta) (hhigh : delta ≤ 127) :
    delta.toInt8.toInt16 = delta := by
  have hlow' : -128 ≤ delta.toInt := Int16.le_iff_toInt_le.mp hlow
  have hhigh' : delta.toInt ≤ 127 := Int16.le_iff_toInt_le.mp hhigh
  apply Int16.toInt_inj.mp
  rw [Int8.toInt_toInt16, Int16.toInt_toInt8, Int.bmod_eq_of_le (by omega) (by omega)]

/-- Returning from a subroutine is kept. -/
theorem kept_ret (slot : UInt16) : KeptInstruction (.ret slot) := by
  simp only [KeptInstruction, item]
  split
  case isTrue hsmall =>
    refine puts_pure fun _ => ⟨fun _ => rfl, fun _ _ => reads_instruction ?_⟩
    have hread := (reads_u8 slot.toUInt8).map fun n => Instruction.ret n.toUInt16
    rw [toUInt8_toUInt16_of_lt hsmall] at hread
    exact hread
  case isFalse =>
    refine puts_pure fun _ => ⟨fun _ => rfl, fun _ _ => reads_instruction ?_⟩
    exact (reads_u8 0xa9).bind ((reads_u16 slot).map Instruction.ret)

/-- Adding to a local variable is kept. -/
theorem kept_iinc (slot : UInt16) (delta : Int16) : KeptInstruction (.iinc slot delta) := by
  simp only [KeptInstruction, item]
  split
  case isTrue hsmall =>
    simp only [Bool.and_eq_true, decide_eq_true_eq] at hsmall
    refine puts_pure fun _ => ⟨fun _ => rfl, fun _ _ => reads_instruction ?_⟩
    have hread := (reads_i8 delta.toInt8).map fun n =>
      Instruction.iinc slot.toUInt8.toUInt16 n.toInt16
    rw [toInt8_toInt16_of_le hsmall.1.2 hsmall.2] at hread
    refine (reads_u8 slot.toUInt8).bind ?_
    rw [toUInt8_toUInt16_of_lt hsmall.1.1] at hread ⊢
    exact hread
  case isFalse =>
    refine puts_pure fun _ => ⟨fun _ => rfl, fun _ _ => reads_instruction ?_⟩
    exact (reads_u8 0x84).bind ((reads_u16 slot).bind
      ((reads_i16 delta).map (Instruction.iinc slot)))

/-- Loading from a local variable is kept. -/
theorem kept_load (kind : ValueKind) (slot : UInt16) : KeptInstruction (.load kind slot) := by
  refine kept_of_bytes rfl (fun _ => rfl) fun constants length position => ?_
  unfold onSlot
  split
  case isTrue hsmall =>
    rcases slot_cases hsmall with rfl | rfl | rfl | rfl <;> cases kind <;>
      exact reads_instruction (reads_pure _)
  case isFalse =>
    split
    case isTrue hsmall =>
      have hread := fun kind => (reads_u8 slot.toUInt8).map fun n => Instruction.load kind n.toUInt16
      rw [toUInt8_toUInt16_of_lt hsmall] at hread
      cases kind <;> exact reads_instruction (hread _)
    case isFalse =>
      cases kind <;>
        exact reads_instruction ((reads_u8 _).bind ((reads_u16 slot).map (Instruction.load _)))

/-- Storing into a local variable is kept. -/
theorem kept_store (kind : ValueKind) (slot : UInt16) : KeptInstruction (.store kind slot) := by
  refine kept_of_bytes rfl (fun _ => rfl) fun constants length position => ?_
  unfold onSlot
  split
  case isTrue hsmall =>
    rcases slot_cases hsmall with rfl | rfl | rfl | rfl <;> cases kind <;>
      exact reads_instruction (reads_pure _)
  case isFalse =>
    split
    case isTrue hsmall =>
      have hread := fun kind => (reads_u8 slot.toUInt8).map fun n => Instruction.store kind n.toUInt16
      rw [toUInt8_toUInt16_of_lt hsmall] at hread
      cases kind <;> exact reads_instruction (hread _)
    case isFalse =>
      cases kind <;>
        exact reads_instruction ((reads_u8 _).bind ((reads_u16 slot).map (Instruction.store _)))

end Plain

section References

/-- Loading a constant is kept, wherever in the pool it stands. -/
theorem kept_ldc {value : Loadable} (h : value.Readable Table.nestingLimit) :
    KeptInstruction (.ldc value) := by
  simp only [KeptInstruction, item]
  refine (puts_loadable h).bind fun place => ?_
  split
  case isTrue =>
    refine puts_pure fun _ hplace => ⟨fun _ => rfl, fun _ _ => reads_instruction ?_⟩
    exact (reads_u16 place).finish (.look hplace (reads_pure _))
  case isFalse =>
    split
    case isTrue hsmall =>
      refine puts_pure fun _ hplace => ⟨fun _ => rfl, fun _ _ => reads_instruction ?_⟩
      refine (reads_u8 place.toUInt8).finish (.look ?_ (reads_pure _))
      rw [toUInt8_toUInt16_of_lt hsmall]
      exact hplace
    case isFalse =>
      refine puts_pure fun _ hplace => ⟨fun _ => rfl, fun _ _ => reads_instruction ?_⟩
      exact (reads_u16 place).finish (.look hplace (reads_pure _))

/-- Access to a field is kept. -/
theorem kept_field (use : FieldUse) {target : FieldRef} (h : target.Valid) :
    KeptInstruction (.field use target) := by
  refine kept_of_index rfl (fun _ => rfl) (puts_fieldRef h) fun constants _ _ place hplace => ?_
  cases use <;> exact (reads_u16 place).finish (.look hplace (reads_pure _))

/-- A call by the class of the receiver is kept. -/
theorem kept_invokevirtual {target : MethodRef} (h : target.Valid) :
    KeptInstruction (.invokevirtual target) :=
  kept_of_index rfl (fun _ => rfl) (puts_methodRef h) fun _ _ _ place hplace =>
    (reads_u16 place).finish (.look hplace (reads_pure _))

/-- A call of a constructor, a private method or one of a super class is kept. -/
theorem kept_invokespecial {target : MethodRef} (h : target.Valid) (onInterface : Bool) :
    KeptInstruction (.invokespecial target onInterface) :=
  kept_of_index rfl (fun _ => rfl) (puts_methodRef_kind h onInterface) fun _ _ _ place hplace =>
    (reads_u16 place).finish (.look hplace (reads_pure _))

/-- A call of a static method is kept. -/
theorem kept_invokestatic {target : MethodRef} (h : target.Valid) (onInterface : Bool) :
    KeptInstruction (.invokestatic target onInterface) :=
  kept_of_index rfl (fun _ => rfl) (puts_methodRef_kind h onInterface) fun _ _ _ place hplace =>
    (reads_u16 place).finish (.look hplace (reads_pure _))

/-- A call through an interface is kept. -/
theorem kept_invokeinterface {target : MethodRef} (h : target.Valid) :
    KeptInstruction (.invokeinterface target) := by
  simp only [KeptInstruction, item]
  refine (puts_interfaceMethodRef h).bind fun place => ?_
  refine (puts_lift fun _ _ _ => trivial).bind fun type => ?_
  split
  case isTrue =>
    refine puts_pure fun _ _ hplace => ⟨fun _ => rfl, fun _ _ => reads_instruction ?_⟩
    refine (reads_u16 place).bind (.look hplace ?_)
    exact (reads_u8 _).bind ((reads_u8 _).finish (reads_pure _))
  case isFalse => exact puts_refuse _

/-- A dynamic call is kept. -/
theorem kept_invokedynamic {site : CallSite} (h : site.Readable) :
    KeptInstruction (.invokedynamic site) := by
  simp only [KeptInstruction, item]
  refine (puts_callSite h).map fun constants place hplace => ?_
  refine ⟨fun _ => rfl, fun _ _ => reads_instruction ?_⟩
  exact (reads_u16 place).bind (.look hplace ((reads_u16 0).finish (reads_pure _)))

/-- A new object is kept. -/
theorem kept_new {name : ClassName} (h : Name.isValid .className name) :
    KeptInstruction (.new name) :=
  kept_of_index rfl (fun _ => rfl) (puts_cls h) fun _ _ _ place hplace =>
    (reads_u16 place).finish (.look hplace.2 (reads_pure _))

/-- A new array of objects is kept. -/
theorem kept_anewarray {name : ClassName} (h : Name.isValid .className name) :
    KeptInstruction (.anewarray name) :=
  kept_of_index rfl (fun _ => rfl) (puts_cls h) fun _ _ _ place hplace =>
    (reads_u16 place).finish (.look hplace.2 (reads_pure _))

/-- A cast is kept. -/
theorem kept_checkcast {name : ClassName} (h : Name.isValid .className name) :
    KeptInstruction (.checkcast name) :=
  kept_of_index rfl (fun _ => rfl) (puts_cls h) fun _ _ _ place hplace =>
    (reads_u16 place).finish (.look hplace.2 (reads_pure _))

/-- A test for a class is kept. -/
theorem kept_instanceof {name : ClassName} (h : Name.isValid .className name) :
    KeptInstruction (.instanceof name) :=
  kept_of_index rfl (fun _ => rfl) (puts_cls h) fun _ _ _ place hplace =>
    (reads_u16 place).finish (.look hplace.2 (reads_pure _))

/-- A new array of several dimensions is kept. -/
theorem kept_multianewarray {name : ClassName} (h : Name.isValid .className name)
    (dimensions : UInt8) : KeptInstruction (.multianewarray name dimensions) := by
  simp only [KeptInstruction, item]
  refine (puts_cls h).map fun constants place hplace => ?_
  refine ⟨fun _ => rfl, fun _ _ => reads_instruction ?_⟩
  exact (reads_u16 place).bind (.look hplace.2
    ((reads_u8 dimensions).map (Instruction.multianewarray name)))

end References

section Jumps

/-- A conditional jump is kept. -/
theorem kept_branch (condition : Condition) (target : Label) :
    KeptInstruction (.branch condition target) :=
  puts_pure fun _ => rfl

/-- A plain jump is kept. -/
theorem kept_goto (target : Label) : KeptInstruction (.goto target) :=
  puts_pure fun _ => .inl ⟨rfl, rfl, rfl⟩

/-- A jump into a subroutine is kept. -/
theorem kept_jsr (target : Label) : KeptInstruction (.jsr target) :=
  puts_pure fun _ => .inr ⟨rfl, rfl, rfl⟩

/-- A jump through a table is kept, if it can be written. -/
theorem kept_tableswitch (fallback : Label) (low high : Int32) (targets : List Label) :
    KeptInstruction (.tableswitch fallback low high targets) := by
  simp only [KeptInstruction, item]
  split
  case isTrue => exact puts_refuse _
  case isFalse hbounds =>
    split
    case isTrue hlength => exact puts_pure fun _ => ⟨rfl, hbounds, hlength⟩
    case isFalse => exact puts_refuse _

/-- A jump by keys is kept, if it can be written. -/
theorem kept_lookupswitch (fallback : Label) (cases : List (Int32 × Label)) :
    KeptInstruction (.lookupswitch fallback cases) := by
  simp only [KeptInstruction, item]
  split
  case isTrue => exact puts_pure fun _ => rfl
  case isFalse => exact puts_refuse _

end Jumps

/-- **An instruction whose operands pass what a reader checks is kept.** -/
theorem kept_of_readable {instruction : Instruction} (h : instruction.Readable) :
    KeptInstruction instruction := by
  cases instruction with
  | op op => exact kept_op op
  | bipush value => exact kept_bipush value
  | sipush value => exact kept_sipush value
  | ldc value => exact kept_ldc h
  | load kind slot => exact kept_load kind slot
  | store kind slot => exact kept_store kind slot
  | iinc slot delta => exact kept_iinc slot delta
  | branch condition target => exact kept_branch condition target
  | goto target => exact kept_goto target
  | jsr target => exact kept_jsr target
  | ret slot => exact kept_ret slot
  | tableswitch fallback low high targets => exact kept_tableswitch fallback low high targets
  | lookupswitch fallback cases => exact kept_lookupswitch fallback cases
  | field use target => exact kept_field use h
  | invokevirtual target => exact kept_invokevirtual h
  | invokespecial target onInterface => exact kept_invokespecial h onInterface
  | invokestatic target onInterface => exact kept_invokestatic h onInterface
  | invokeinterface target => exact kept_invokeinterface h
  | invokedynamic site => exact kept_invokedynamic h
  | new name => exact kept_new h
  | newarray element => exact kept_newarray element
  | anewarray name => exact kept_anewarray h
  | checkcast name => exact kept_checkcast h
  | instanceof name => exact kept_instanceof h
  | multianewarray name dimensions => exact kept_multianewarray h dimensions

section Reading

variable {table : Table} {bootstraps : Array Bootstrap} {length : UInt16}

/-- An instruction that a reader can give in code of some length: its operands pass what is checked,
and it jumps inside. -/
structure ReadableAt (length : UInt16) (instruction : Instruction) : Prop where
  readable : instruction.Readable
  inside : ∀ target ∈ instruction.targets, target.id < length

/-- An instruction that can be read and is not a jump. -/
theorem readableAt_of_targets {instruction : Instruction} (htargets : instruction.targets = [])
    (h : instruction.Readable) : ReadableAt length instruction :=
  ⟨h, by simp [htargets]⟩

/-- The label of an offset lies inside. -/
theorem labelAt_inside {offset : UInt16} {label : Label}
    (h : Decode.labelAt length offset = .ok label) : label.id < length := by
  unfold Decode.labelAt at h
  split at h
  case isTrue hlt =>
    cases h
    exact hlt
  case isFalse => cases h

/-- What is read as a label lies inside, if it is checked at the end. -/
theorem gives_labelAt (offset : UInt16) :
    Gives (liftM (Decode.labelAt length offset) : Parse Label) fun label => label.id < length :=
  gives_lift fun _ h => labelAt_inside h

/-- A short jump goes inside. -/
theorem gives_shortTarget (position : Nat) :
    Gives (Decode.shortTarget length position) fun label => label.id < length := by
  refine .after fun distance => ?_
  dsimp only
  split
  · exact gives_labelAt _
  · exact gives_refuse _

/-- A long jump goes inside. -/
theorem gives_longTarget (position : Nat) :
    Gives (Decode.longTarget length position) fun label => label.id < length := by
  refine .after fun distance => ?_
  dsimp only
  split
  · split
    · exact gives_labelAt _
    · exact gives_refuse _
  · exact gives_refuse _

/-- Every instruction that refers to the pool passes what is checked. -/
theorem gives_poolInstruction (hbootstraps : ∀ bootstrap ∈ bootstraps, bootstrap.handle.Valid)
    {opcode : UInt8} {read : Parse Instruction}
    (h : Decode.poolInstruction? table bootstraps opcode = some read) :
    Gives read (ReadableAt length) := by
  unfold Decode.poolInstruction? at h
  split at h
  case h_1 | h_2 | h_3 =>
    cases h
    exact .after fun _ => .look fun _ hvalue => gives_pure (readableAt_of_targets rfl (readable_of_loadable hbootstraps hvalue))
  case h_4 | h_5 | h_6 | h_7 =>
    cases h
    exact .after fun _ => .look fun _ htarget =>
      gives_pure (readableAt_of_targets rfl (Table.fieldRef_valid htarget))
  case h_8 =>
    cases h
    exact .after fun _ => .look fun _ htarget =>
      gives_pure (readableAt_of_targets rfl (Table.methodRef_valid htarget))
  case h_9 =>
    cases h
    exact .after fun _ => .look fun _ htarget =>
      gives_pure (readableAt_of_targets rfl (Table.anyMethodRef_valid htarget))
  case h_10 =>
    cases h
    exact .after fun _ => .look fun _ htarget =>
      gives_pure (readableAt_of_targets rfl (Table.anyMethodRef_valid htarget))
  case h_11 =>
    cases h
    exact .after fun _ => .look fun _ htarget => .after fun _ => .after fun _ =>
      gives_pure (readableAt_of_targets rfl (Table.interfaceMethodRef_valid htarget))
  case h_12 =>
    cases h
    exact .after fun _ => .look fun _ hsite => .after fun _ =>
      gives_pure (readableAt_of_targets rfl (readable_of_callSite hbootstraps hsite))
  case h_13 =>
    cases h
    exact .after fun _ => .look fun _ hname =>
      gives_pure (readableAt_of_targets rfl (Table.cls_valid hname))
  case h_14 =>
    cases h
    exact .after fun _ => .look fun _ hname =>
      gives_pure (readableAt_of_targets rfl (Table.cls_valid hname))
  case h_15 =>
    cases h
    exact .after fun _ => .look fun _ hname =>
      gives_pure (readableAt_of_targets rfl (Table.cls_valid hname))
  case h_16 =>
    cases h
    exact .after fun _ => .look fun _ hname =>
      gives_pure (readableAt_of_targets rfl (Table.cls_valid hname))
  case h_17 =>
    cases h
    exact .after fun _ => .look fun _ hname => .after fun _ =>
      gives_pure (readableAt_of_targets rfl (Table.cls_valid hname))
  case h_18 => cases h

/-- Every instruction with a wide slot passes what is checked. -/
theorem gives_wide : Gives Decode.wide (ReadableAt length) := by
  refine .after fun opcode => ?_
  split
  · exact .after fun _ => gives_pure (readableAt_of_targets rfl trivial)
  split
  · exact .after fun _ => gives_pure (readableAt_of_targets rfl trivial)
  split
  · exact .after fun _ => gives_pure (readableAt_of_targets rfl trivial)
  split
  · exact .after fun _ => .after fun _ => gives_pure (readableAt_of_targets rfl trivial)
  · exact gives_refuse _

/-- Every jump through a table goes inside. -/
theorem gives_tableswitch (position : Nat) :
    Gives (Decode.tableswitch length position) (ReadableAt length) := by
  refine .after fun _ => (gives_longTarget position).bind fun fallback hfallback => ?_
  refine .after fun low => .after fun high => ?_
  split
  · exact gives_refuse _
  · refine (gives_times (gives_longTarget position) _).bind fun targets htargets => ?_
    exact gives_pure ⟨trivial, List.forall_mem_cons.mpr ⟨hfallback, htargets⟩⟩

/-- Every jump by keys goes inside. -/
theorem gives_lookupswitch (position : Nat) :
    Gives (Decode.lookupswitch length position) (ReadableAt length) := by
  have hcase : Gives (do
        let key ← i32
        return (key, ← Decode.longTarget length position))
      fun c : Int32 × Label => c.2.id < length :=
    .after fun _ => (gives_longTarget position).bind fun _ htarget => gives_pure htarget
  refine .after fun _ => (gives_longTarget position).bind fun fallback hfallback => ?_
  refine .after fun count => ?_
  split
  · exact gives_refuse _
  · refine (gives_times hcase _).bind fun cases hcases => ?_
    exact gives_pure ⟨trivial,
      List.forall_mem_cons.mpr ⟨hfallback, List.forall_mem_map.mpr hcases⟩⟩

/-- **Every instruction that is read passes what is checked**, and jumps inside. -/
theorem gives_instruction (hbootstraps : ∀ bootstrap ∈ bootstraps, bootstrap.handle.Valid)
    (position : Nat) :
    Gives (Decode.instruction table bootstraps length position) (ReadableAt length) := by
  refine .after fun opcode => ?_
  unfold Decode.operands
  cases Op.ofOpcode? opcode with
  | some op => exact gives_pure (readableAt_of_targets rfl trivial)
  | none =>
  cases Condition.ofOpcode? opcode with
  | some condition =>
      exact (gives_shortTarget position).bind fun _ htarget =>
        gives_pure ⟨trivial, List.forall_mem_singleton.mpr htarget⟩
  | none =>
  cases hpool : Decode.poolInstruction? table bootstraps opcode with
  | some read => exact gives_poolInstruction hbootstraps hpool
  | none =>
  simp only
  split
  · exact .after fun _ => gives_pure (readableAt_of_targets rfl trivial)
  split
  · exact gives_pure (readableAt_of_targets rfl trivial)
  split
  · exact .after fun _ => gives_pure (readableAt_of_targets rfl trivial)
  split
  · exact gives_pure (readableAt_of_targets rfl trivial)
  split
  case h_1 => exact .after fun _ => gives_pure (readableAt_of_targets rfl trivial)
  case h_2 => exact .after fun _ => gives_pure (readableAt_of_targets rfl trivial)
  case h_3 => exact .after fun _ => .after fun _ => gives_pure (readableAt_of_targets rfl trivial)
  case h_4 =>
    exact (gives_shortTarget position).bind fun _ htarget =>
      gives_pure ⟨trivial, List.forall_mem_singleton.mpr htarget⟩
  case h_5 =>
    exact (gives_shortTarget position).bind fun _ htarget =>
      gives_pure ⟨trivial, List.forall_mem_singleton.mpr htarget⟩
  case h_6 =>
    exact (gives_longTarget position).bind fun _ htarget =>
      gives_pure ⟨trivial, List.forall_mem_singleton.mpr htarget⟩
  case h_7 =>
    exact (gives_longTarget position).bind fun _ htarget =>
      gives_pure ⟨trivial, List.forall_mem_singleton.mpr htarget⟩
  case h_8 => exact .after fun _ => gives_pure (readableAt_of_targets rfl trivial)
  case h_9 => exact gives_tableswitch position
  case h_10 => exact gives_lookupswitch position
  case h_11 =>
    refine .after fun code => ?_
    split
    · exact gives_pure (readableAt_of_targets rfl trivial)
    · exact gives_refuse _
  case h_12 => exact gives_wide
  case h_13 | h_14 | h_15 | h_16 => exact gives_refuse _

end Reading

end Encode

end Downlevel
