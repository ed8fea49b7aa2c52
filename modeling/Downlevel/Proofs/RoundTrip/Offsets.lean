import Downlevel.Proofs.RoundTrip.Instruction

/-!
# Offsets of instructions that are read

Reading never goes back, and an instruction takes a byte at least.  So the instructions of code have
offsets that grow from each to the next, and none of them lies at the end of the code or behind it.
-/

namespace Downlevel

namespace Parse

variable {α β : Type}

/-- Reading that only moves the cursor on, over the bytes that it leaves behind. -/
class Forward (parse : Parse α) : Prop where
  moves : ∀ {cursor value cursor'}, parse cursor = .ok (value, cursor') →
    ∃ n, cursor' = ⟨cursor.offset + n, cursor.rest.drop n⟩

section Instances

variable {parse other : Parse α} {next : α → Parse β}

instance (value : α) : Forward (pure value : Parse α) where
  moves h := ⟨0, by
    obtain ⟨-, rfl⟩ := work_pure_eq_ok.mp h
    rfl⟩

instance (outcome : Except Error α) : Forward (liftM outcome : Parse α) where
  moves h := ⟨0, by
    obtain ⟨-, rfl⟩ := work_lift_eq_ok.mp h
    rfl⟩

instance (fault : ReadFault) : Forward (refuse fault : Parse α) where
  moves h := by cases h

instance [Forward parse] [∀ a, Forward (next a)] : Forward (parse >>= next) where
  moves h := by
    obtain ⟨a, between, hfirst, hsecond⟩ := work_bind_eq_ok.mp h
    obtain ⟨m, rfl⟩ := Forward.moves hfirst
    obtain ⟨n, rfl⟩ := Forward.moves hsecond
    exact ⟨m + n, by rw [Nat.add_assoc, List.drop_drop]⟩

instance (condition : Prop) [Decidable condition] [Forward parse] [Forward other] :
    Forward (if condition then parse else other) := by
  split <;> infer_instance

instance (word : String) : Forward (byte word) where
  moves {cursor _ _} h := by
    obtain ⟨offset, rest⟩ := cursor
    match rest, h with
    | [], h => cases h
    | a :: rest, h =>
        cases h
        exact ⟨1, rfl⟩

instance (word : String) : Forward (pair word) where
  moves {cursor _ _} h := by
    obtain ⟨offset, rest⟩ := cursor
    match rest, h with
    | [], h => cases h
    | [_], h => cases h
    | a :: b :: rest, h =>
        cases h
        exact ⟨2, rfl⟩

instance (word : String) : Forward (quad word) where
  moves {cursor _ _} h := by
    obtain ⟨offset, rest⟩ := cursor
    match rest, h with
    | [], h => cases h
    | [_], h => cases h
    | [_, _], h => cases h
    | [_, _, _], h => cases h
    | a :: b :: c :: d :: rest, h =>
        cases h
        exact ⟨4, rfl⟩

instance (n : Nat) : Forward (skip n) where
  moves h := ⟨n, by
    cases h
    rfl⟩

instance : Forward offset where
  moves h := ⟨0, by
    cases h
    rfl⟩

instance : Forward u8 := inferInstanceAs (Forward (byte _))

instance : Forward u16 := inferInstanceAs (Forward (pair _))

instance : Forward i8 := inferInstanceAs (Forward (byte _ >>= _))

instance : Forward i16 := inferInstanceAs (Forward (pair _ >>= _))

instance : Forward i32 := inferInstanceAs (Forward (quad _ >>= _))

/-- Reading items one after the other only moves on. -/
theorem forward_repeatFrom [Forward parse] (n : Nat) (done : List α) :
    Forward (repeatFrom parse n done) := by
  induction n generalizing done with
  | zero => exact inferInstanceAs (Forward (pure _))
  | succ n ih =>
      have := ih
      exact inferInstanceAs (Forward (parse >>= fun value => repeatFrom parse n (value :: done)))

instance (n : Nat) [Forward parse] : Forward (times n parse) :=
  forward_repeatFrom n []

end Instances

end Parse

namespace Decode

open Parse

variable (pool : Pool.Table) (bootstraps : Array Pool.Bootstrap) (length : UInt16)

instance (position : Nat) : Forward (shortTarget length position) := by
  unfold shortTarget
  infer_instance

instance (position : Nat) : Forward (longTarget length position) := by
  unfold longTarget
  infer_instance

instance : Forward align := by
  unfold align
  infer_instance

instance (position : Nat) : Forward (tableswitch length position) := by
  unfold tableswitch
  infer_instance

instance (position : Nat) : Forward (lookupswitch length position) := by
  unfold lookupswitch
  infer_instance

instance : Forward wide := by
  unfold wide
  infer_instance

/-- Reading an instruction that refers to the pool only moves on. -/
theorem forward_poolInstruction {opcode : UInt8} {read : Parse Instruction}
    (h : poolInstruction? pool bootstraps opcode = some read) : Forward read := by
  unfold poolInstruction? at h
  split at h <;> cases h <;> infer_instance

instance (position : Nat) (opcode : UInt8) :
    Forward (operands pool bootstraps length position opcode) := by
  unfold operands
  split
  · infer_instance
  split
  · infer_instance
  split
  · next hread => exact forward_poolInstruction pool bootstraps hread
  split
  · infer_instance
  split
  · infer_instance
  split
  · infer_instance
  split
  · infer_instance
  split
  case h_11 =>
    have (code : UInt8) : Forward (match Primitive.ofCode? code with
        | some element => pure (Instruction.newarray element)
        | none => refuse (.unknownArrayType code)) := by
      split <;> infer_instance
    infer_instance
  all_goals infer_instance

variable {pool bootstraps length}

/-- An instruction takes a byte at least. -/
theorem instruction_moves {position : Nat} {cursor cursor' : Cursor} {next : Instruction}
    (h : instruction pool bootstraps length position cursor = .ok (next, cursor')) :
    ∃ n, 0 < n ∧ cursor' = ⟨cursor.offset + n, cursor.rest.drop n⟩ := by
  obtain ⟨opcode, between, hopcode, hrest⟩ := work_bind_eq_ok.mp h
  obtain ⟨offset, rest⟩ := cursor
  cases rest with
  | nil => cases hopcode
  | cons byte rest =>
      cases hopcode
      obtain ⟨n, rfl⟩ := Forward.moves hrest
      exact ⟨1 + n, by omega, by rw [Nat.add_comm 1 n, List.drop_succ_cons, Nat.add_assoc,
        Nat.add_comm n 1]⟩

/-- The offsets of instructions that are read behind others grow from each to the next, from where
the cursor stood and up to the end of the code; and what each instruction gives, all of them have. -/
theorem instructionsFrom_spec {P : Instruction → Prop}
    (hinstruction : ∀ position, Gives (instruction pool bootstraps length position) P)
    {size fuel : Nat} (hsize : size < 65536) {done found : List (UInt16 × Instruction)}
    {cursor cursor' : Cursor}
    (hcursor : cursor.rest ≠ [] → cursor.offset + cursor.rest.length = size)
    (h : instructionsFrom pool bootstraps length fuel done cursor = .ok (found, cursor')) :
    ∃ own, found = done.reverse ++ own ∧ (own.map fun one => one.1.toNat).Pairwise (· < ·) ∧
      ∀ one ∈ own, cursor.offset ≤ one.1.toNat ∧ one.1.toNat < size ∧ P one.2 := by
  induction fuel generalizing done cursor with
  | zero =>
      obtain ⟨rfl, -⟩ := work_pure_eq_ok.mp h
      exact ⟨[], by rw [List.append_nil], .nil, nofun⟩
  | succ fuel ih =>
      obtain ⟨offset, rest⟩ := cursor
      cases rest with
      | nil =>
          cases h
          exact ⟨[], by rw [List.append_nil], .nil, nofun⟩
      | cons byte rest =>
          have hend : offset + (rest.length + 1) = size := hcursor (List.cons_ne_nil byte rest)
          obtain ⟨next, between, hnext, hrest⟩ := work_bind_eq_ok.mp
            (show ((instruction pool bootstraps length offset).within (.atOffset offset) >>=
              fun next => instructionsFrom pool bootstraps length fuel
                ((offset.toUInt16, next) :: done)) ⟨offset, byte :: rest⟩ = _ from h)
          have hread := within_eq_ok.mp hnext
          obtain ⟨n, hn, rfl⟩ := instruction_moves hread
          have hbetween : (byte :: rest).drop n ≠ [] →
              offset + n + ((byte :: rest).drop n).length = size := by
            intro hne
            have hlength := List.length_pos_iff.mpr hne
            rw [List.length_drop, List.length_cons] at hlength ⊢
            omega
          obtain ⟨own, rfl, hpairwise, hown⟩ := ih hbetween hrest
          have hoffset : offset.toUInt16.toNat = offset :=
            UInt16.toNat_ofNat_of_lt' (show offset < 65536 by omega)
          have hbehind : ∀ one ∈ own, offset + n ≤ one.1.toNat := fun one hone => (hown one hone).1
          refine ⟨(offset.toUInt16, next) :: own, ?_, ?_, ?_⟩
          · rw [List.reverse_cons, List.append_assoc, List.singleton_append]
          · refine List.pairwise_cons.mpr ⟨?_, hpairwise⟩
            rw [List.forall_mem_map]
            intro one hone
            have hle := hbehind one hone
            show offset.toUInt16.toNat < one.1.toNat
            omega
          · refine List.forall_mem_cons.mpr ⟨⟨hoffset.ge, ?_, hinstruction _ _ _ _ hread⟩, ?_⟩
            · show offset.toUInt16.toNat < size
              omega
            · intro one hone
              exact ⟨(Nat.le_add_right offset n).trans (hbehind one hone), (hown one hone).2⟩

/-- **Instructions have offsets of their own inside the code**, and what each instruction gives, all
of them have. -/
theorem instructions_spec {P : Instruction → Prop}
    (hinstruction : ∀ position, Gives (instruction pool bootstraps length position) P)
    {bytes : Bytes} (hsize : bytes.length < 65536) {found : List (UInt16 × Instruction)}
    (h : instructions pool bootstraps length bytes = .ok found) :
    (found.map fun one => one.1.toNat).Pairwise (· < ·) ∧
      ∀ one ∈ found, one.1.toNat < bytes.length ∧ P one.2 := by
  unfold instructions at h
  cases hrun : instructionsFrom pool bootstraps length bytes.length [] (Cursor.start bytes) with
  | error e =>
      rw [hrun] at h
      cases h
  | ok result =>
      rw [hrun] at h
      cases h
      obtain ⟨own, hown, hpairwise, hall⟩ := instructionsFrom_spec hinstruction hsize
        (fun _ => Nat.zero_add _) hrun
      rw [hown]
      exact ⟨hpairwise, fun one hone => (hall one hone).2⟩

end Decode

end Downlevel
