import Downlevel.Cursor
import Downlevel.Decode.Attribute
import Downlevel.Proofs.Bytes
import Downlevel.Proofs.Outcome

/-!
# Reading what stands in front

`Reads parse bytes value` says that reading takes exactly `bytes`, whatever stands behind them, and
gives `value`.  It is put together along the parts of the work: each part takes its bytes and hands
the rest on.  `Gives parse P` looks the other way, from the value that comes out of reading, and
says what is known of it without knowing the bytes.  Where reading goes back, `StartsAt` leaves open
where it ends.

* `Reads.bind`, `Gives.bind` — work in sequence;
* `reads_u8` … `reads_i64`, `reads_take` — words and bytes that were written;
* `reads_times`, `reads_listOf`, `reads_shortListOf` — lists, from their items;
* `reads_iterate` — steps that each change a value.
-/

namespace Downlevel

namespace Parse

variable {α β : Type}

/-- Read at `offset`, the bytes are taken exactly and give the value. -/
def ReadsAt (offset : Nat) (parse : Parse α) (bytes : Bytes) (value : α) : Prop :=
  ∀ rest, parse ⟨offset, bytes ++ rest⟩ = .ok (value, ⟨offset + bytes.length, rest⟩)

/-- Read anywhere, the bytes are taken exactly and give the value. -/
def Reads (parse : Parse α) (bytes : Bytes) (value : α) : Prop :=
  ∀ offset, ReadsAt offset parse bytes value

/-- Read at `offset` from the bytes, the value comes out; where reading ends is left open. -/
def StartsAt (offset : Nat) (parse : Parse α) (bytes : Bytes) (value : α) : Prop :=
  ∃ cursor, parse ⟨offset, bytes⟩ = .ok (value, cursor)

/-- Whatever is read has the property. -/
def Gives (parse : Parse α) (P : α → Prop) : Prop :=
  ∀ cursor value cursor', parse cursor = .ok (value, cursor') → P value

section Sequence

variable {parse : Parse α} {next : α → Parse β} {first second : Bytes} {value : α} {result : β}
  {offset : Nat}

/-- Work in sequence takes the bytes of its parts one behind the other. -/
theorem ReadsAt.bind (hfirst : ReadsAt offset parse first value)
    (hsecond : ReadsAt (offset + first.length) (next value) second result) :
    ReadsAt offset (parse >>= next) (first ++ second) result := by
  intro rest
  rw [work_bind_eq_ok, List.append_assoc]
  refine ⟨value, _, hfirst _, ?_⟩
  rw [hsecond rest, List.length_append, Nat.add_assoc]

/-- Work in sequence takes the bytes of its parts one behind the other. -/
theorem Reads.bind (hfirst : Reads parse first value) (hsecond : Reads (next value) second result) :
    Reads (parse >>= next) (first ++ second) result :=
  fun offset => (hfirst offset).bind (hsecond _)

/-- A value takes no bytes. -/
theorem reads_pure (value : α) : Reads (pure value : Parse α) [] value :=
  fun _ _ => rfl

/-- What only has an outcome takes no bytes. -/
theorem reads_lift {outcome : Except Error α} (h : outcome = .ok value) :
    Reads (liftM outcome : Parse α) [] value := by
  intro offset rest
  rw [work_lift_eq_ok]
  exact ⟨h, rfl⟩

/-- An outcome that is looked up in between takes no bytes. -/
theorem Reads.look {outcome : Except Error α} (h : outcome = .ok value)
    (hnext : Reads (next value) second result) :
    Reads ((liftM outcome : Parse α) >>= next) second result :=
  (reads_lift h).bind hnext

/-- The rest of the work may take no bytes. -/
theorem Reads.finish (hfirst : Reads parse first value) (hrest : Reads (next value) [] result) :
    Reads (parse >>= next) first result := by
  have h := hfirst.bind hrest
  rwa [List.append_nil] at h

/-- The last step of work only makes the result. -/
theorem Reads.map (hfirst : Reads parse first value) (f : α → β) :
    Reads (parse >>= fun a => pure (f a)) first (f value) :=
  hfirst.finish (reads_pure (f value))

/-- Reading that starts with what takes its bytes goes on behind them. -/
theorem Reads.startsAt (hfirst : Reads parse first value)
    (hnext : StartsAt (offset + first.length) (next value) second result) :
    StartsAt offset (parse >>= next) (first ++ second) result := by
  obtain ⟨cursor, hnext⟩ := hnext
  exact ⟨cursor, work_bind_eq_ok.mpr ⟨value, _, hfirst offset second, hnext⟩⟩

/-- An outcome that is looked up in between does not move the cursor. -/
theorem StartsAt.look {outcome : Except Error α} (h : outcome = .ok value)
    (hnext : StartsAt offset (next value) second result) :
    StartsAt offset ((liftM outcome : Parse α) >>= next) second result := by
  subst h
  exact hnext

/-- The cursor may be kept. -/
theorem startsAt_get {next : Cursor → Parse β}
    (h : StartsAt offset (next ⟨offset, second⟩) second result) :
    StartsAt offset (get >>= next) second result :=
  h

/-- Reading may go back to a cursor that was kept. -/
theorem startsAt_set {kept : Bytes} {place : Nat} {next : PUnit → Parse β}
    (h : StartsAt place (next ⟨⟩) kept result) :
    StartsAt offset (set (⟨place, kept⟩ : Cursor) >>= next) second result :=
  h

/-- Reading may end anywhere. -/
theorem startsAt_pure (value : α) : StartsAt offset (pure value) second value :=
  ⟨_, rfl⟩

/-- Naming the place of an error does not touch what is read. -/
theorem ReadsAt.within (h : ReadsAt offset parse first value) (fault : ReadFault) :
    ReadsAt offset (parse.within fault) first value := by
  intro rest
  simp only [Parse.within, h rest, Downlevel.within]

/-- Naming the place of an error does not touch what is read. -/
theorem Reads.within (h : Reads parse first value) (fault : ReadFault) :
    Reads (parse.within fault) first value :=
  fun offset => (h offset).within fault

/-- Work in sequence gives what its last part gives. -/
theorem Gives.bind {P : α → Prop} {Q : β → Prop} (hfirst : Gives parse P)
    (hnext : ∀ a, P a → Gives (next a) Q) : Gives (parse >>= next) Q := by
  intro cursor result cursor' h
  rw [work_bind_eq_ok] at h
  obtain ⟨a, between, hparse, hrest⟩ := h
  exact hnext a (hfirst _ _ _ hparse) _ _ _ hrest

/-- Whatever the first part of the work reads, the last part gives the result. -/
theorem Gives.after {Q : β → Prop} (hnext : ∀ a, Gives (next a) Q) : Gives (parse >>= next) Q := by
  intro cursor result cursor' h
  rw [work_bind_eq_ok] at h
  obtain ⟨a, between, -, hrest⟩ := h
  exact hnext a _ _ _ hrest

/-- What is read from some bytes has what everything has that is read. -/
theorem Reads.gives {P : α → Prop} (h : Reads parse first value) (hgives : Gives parse P) :
    P value :=
  hgives _ _ _ (h 0 [])

/-- A value gives itself. -/
theorem gives_pure {P : α → Prop} (h : P value) : Gives (pure value : Parse α) P := by
  intro cursor value' cursor' hrun
  obtain ⟨rfl, -⟩ := work_pure_eq_ok.mp hrun
  exact h

/-- What is looked up gives what is known of it. -/
theorem Gives.look {outcome : Except Error α} {Q : β → Prop}
    (hnext : ∀ a, outcome = .ok a → Gives (next a) Q) :
    Gives ((liftM outcome : Parse α) >>= next) Q := by
  intro cursor result cursor' h
  rw [work_bind_eq_ok] at h
  obtain ⟨a, between, hlook, hrest⟩ := h
  exact hnext a (work_lift_eq_ok.mp hlook).1 _ _ _ hrest

/-- What only has an outcome gives it. -/
theorem gives_lift {outcome : Except Error α} {P : α → Prop} (h : ∀ a, outcome = .ok a → P a) :
    Gives (liftM outcome : Parse α) P := by
  intro cursor value cursor' hrun
  exact h value (work_lift_eq_ok.mp hrun).1

/-- What is refused gives nothing. -/
theorem gives_refuse {P : α → Prop} (fault : ReadFault) : Gives (refuse fault) P := by
  intro cursor value cursor' h
  cases h

/-- Naming the place of an error does not touch what is given. -/
theorem Gives.within {P : α → Prop} (h : Gives parse P) (fault : ReadFault) :
    Gives (parse.within fault) P := by
  intro cursor value cursor' hrun
  exact h _ _ _ (within_eq_ok.mp hrun)

/-- What reading promises in two ways it promises at once. -/
theorem Gives.and {P Q : α → Prop} (hP : Gives parse P) (hQ : Gives parse Q) :
    Gives parse fun value => P value ∧ Q value :=
  fun cursor value cursor' h => ⟨hP cursor value cursor' h, hQ cursor value cursor' h⟩

end Sequence

section Words

/-- A byte. -/
theorem reads_u8 (n : UInt8) : Reads u8 [n] n :=
  fun _ _ => rfl

/-- The bytes of a 16-bit word. -/
theorem reads_pair (word : String) (n : UInt16) : Reads (pair word) (Bytes.ofU16 n) n := by
  intro offset rest
  show Except.ok (Bytes.toU16 _ _, _) = _
  rw [Bytes.toU16_ofU16]
  rfl

/-- The bytes of a 32-bit word. -/
theorem reads_quad (word : String) (n : UInt32) : Reads (quad word) (Bytes.ofU32 n) n := by
  intro offset rest
  show Except.ok (Bytes.toU32 _ _ _ _, _) = _
  rw [Bytes.toU32_ofU32]
  rfl

/-- The bytes of a 64-bit word. -/
theorem reads_octet (word : String) (n : UInt64) : Reads (octet word) (Bytes.ofU64 n) n := by
  intro offset rest
  show Except.ok (Bytes.toU64 (Bytes.toU32 _ _ _ _) (Bytes.toU32 _ _ _ _), _) = _
  rw [Bytes.toU32_ofU32, Bytes.toU32_ofU32, Bytes.toU64_halves]
  rfl

/-- The bytes of an unsigned 16-bit number. -/
theorem reads_u16 (n : UInt16) : Reads u16 (Bytes.ofU16 n) n :=
  reads_pair _ n

/-- The bytes of an unsigned 32-bit number. -/
theorem reads_u32 (n : UInt32) : Reads u32 (Bytes.ofU32 n) n :=
  reads_quad _ n

/-- The byte of a signed 8-bit number. -/
theorem reads_i8 (n : Int8) : Reads i8 (Bytes.ofI8 n) n :=
  fun _ _ => rfl

/-- The bytes of a signed 16-bit number. -/
theorem reads_i16 (n : Int16) : Reads i16 (Bytes.ofI16 n) n :=
  (reads_pair "i16" n.toUInt16).map UInt16.toInt16

/-- The bytes of a signed 32-bit number. -/
theorem reads_i32 (n : Int32) : Reads i32 (Bytes.ofI32 n) n :=
  (reads_quad "i32" n.toUInt32).map UInt32.toInt32

/-- The bytes of a signed 64-bit number. -/
theorem reads_i64 (n : Int64) : Reads i64 (Bytes.ofI64 n) n :=
  (reads_octet "i64" n.toUInt64).map UInt64.toInt64

/-- Splitting off as many items as a list has gives the list. -/
theorem splitExactly_append (done items rest : List α) :
    splitExactly items.length done (items ++ rest) = some (done.reverse ++ items, rest) := by
  induction items generalizing done with
  | nil => simp [splitExactly]
  | cons item items ih => simp [splitExactly, ih]

/-- As many bytes as are asked for. -/
theorem reads_take (bytes : Bytes) : Reads (take bytes.length) bytes bytes := by
  intro offset rest
  simp only [take, splitExactly_append, List.reverse_nil, List.nil_append]

/-- What is split off has as many items as were asked for. -/
theorem length_of_splitExactly {n : Nat} {done items front rest : List α}
    (h : splitExactly n done items = some (front, rest)) : front.length = done.length + n := by
  induction n generalizing done items with
  | zero =>
      cases h
      rw [List.length_reverse, Nat.add_zero]
  | succ n ih =>
      cases items with
      | nil => cases h
      | cons item items =>
          rw [ih h, List.length_cons]
          omega

/-- As many bytes are given as were asked for. -/
theorem gives_take (n : Nat) : Gives (take n) fun bytes => bytes.length = n := by
  intro cursor bytes cursor' h
  unfold take at h
  split at h
  case h_1 front rest hsplit =>
    cases h
    rw [length_of_splitExactly hsplit, List.length_nil, Nat.zero_add]
  case h_2 => cases h

/-- As many bytes as are passed over. -/
theorem reads_skip (bytes : Bytes) : Reads (skip bytes.length) bytes () := by
  intro offset rest
  simp only [skip, List.drop_left]

end Words

section Lists

variable {item : Parse α}

/-- Items are read one behind the other, behind those that are there. -/
theorem reads_repeatFrom {parts : List Bytes} {values : List α}
    (h : List.Forall₂ (Reads item) parts values) (done : List α) :
    Reads (repeatFrom item values.length done) parts.flatten (done.reverse ++ values) := by
  induction h generalizing done with
  | nil =>
      rw [List.append_nil]
      exact reads_pure _
  | @cons part value parts values hfirst _ ih =>
      have hrest := ih (value :: done)
      rw [List.reverse_cons, List.append_assoc] at hrest
      exact hfirst.bind hrest

/-- Items are read one behind the other. -/
theorem reads_times {parts : List Bytes} {values : List α}
    (h : List.Forall₂ (Reads item) parts values) :
    Reads (times values.length item) parts.flatten values :=
  reads_repeatFrom h []

/-- A list behind its length. -/
theorem reads_listOf {parts : List Bytes} {values : List α}
    (h : List.Forall₂ (Reads item) parts values) (hlength : values.length < 65536) :
    Reads (listOf item) (Bytes.ofU16 values.length.toUInt16 ++ parts.flatten) values := by
  refine (reads_u16 _).bind ?_
  rw [UInt16.toNat_ofNat_of_lt' hlength]
  exact reads_times h

/-- A short list behind its length. -/
theorem reads_shortListOf {parts : List Bytes} {values : List α}
    (h : List.Forall₂ (Reads item) parts values) (hlength : values.length < 256) :
    Reads (shortListOf item) (values.length.toUInt8 :: parts.flatten) values := by
  refine (reads_u8 _).bind ?_
  rw [UInt8.toNat_ofNat_of_lt' hlength]
  exact reads_times h

/-- What every item gives, all items behind others have. -/
theorem gives_repeatFrom {P : α → Prop} (h : Gives item P) (n : Nat) {done : List α}
    (hdone : ∀ value ∈ done, P value) :
    Gives (repeatFrom item n done) fun values => ∀ value ∈ values, P value := by
  induction n generalizing done with
  | zero => exact gives_pure (by simpa using hdone)
  | succ n ih =>
      refine h.bind fun value hvalue => ih fun other hmem => ?_
      rcases List.mem_cons.mp hmem with rfl | hmem
      · exact hvalue
      · exact hdone other hmem

/-- What every item gives, all items have. -/
theorem gives_times {P : α → Prop} (h : Gives item P) (n : Nat) :
    Gives (times n item) fun values => ∀ value ∈ values, P value :=
  gives_repeatFrom h n fun _ hmem => by cases hmem

/-- What every item gives, all items of a list have. -/
theorem gives_listOf {P : α → Prop} (h : Gives item P) :
    Gives (listOf item) fun values => ∀ value ∈ values, P value :=
  Gives.after fun count => gives_times h count.toNat

/-- What every item gives, all items of a short list have. -/
theorem gives_shortListOf {P : α → Prop} (h : Gives item P) :
    Gives (shortListOf item) fun values => ∀ value ∈ values, P value :=
  Gives.after fun count => gives_times h count.toNat

/-- As many items are read as were asked for, behind those that are there. -/
theorem gives_repeatFrom_length (n : Nat) (done : List α) :
    Gives (repeatFrom item n done) fun values => values.length = done.length + n := by
  induction n generalizing done with
  | zero => exact gives_pure List.length_reverse
  | succ n ih =>
      refine .after fun value => ?_
      intro cursor values cursor' h
      rw [ih (value :: done) cursor values cursor' h, List.length_cons, Nat.add_assoc,
        Nat.add_comm 1]

/-- A list that is read has as many items as two bytes can count. -/
theorem gives_listOf_length : Gives (listOf item) fun values => values.length < 65536 := by
  refine .after fun count => ?_
  intro cursor values cursor' h
  rw [gives_repeatFrom_length count.toNat [] cursor values cursor' h, List.length_nil, Nat.zero_add]
  exact count.toNat_lt

end Lists

section Iteration

open Decode

variable {step : α → Parse α}

/-- Values that steps lead to, each step taking its part of the bytes. -/
inductive Steps (step : α → Parse α) : List Bytes → α → α → Prop where
  | done (value : α) : Steps step [] value value
  | more {part : Bytes} {parts : List Bytes} {value next last : α}
      (first : Reads (step value) part next) (rest : Steps step parts next last) :
      Steps step (part :: parts) value last

/-- Steps behind steps. -/
theorem Steps.append {front back : List Bytes} {value between last : α}
    (hfront : Steps step front value between) (hback : Steps step back between last) :
    Steps step (front ++ back) value last := by
  induction hfront with
  | done value => exact hback
  | more first _ ih => exact .more first (ih hback)

/-- Steps that change nothing. -/
theorem steps_same {parts : List Bytes} {value : α}
    (h : ∀ part ∈ parts, Reads (step value) part value) : Steps step parts value value := by
  induction parts with
  | nil => exact .done value
  | cons part parts ih =>
      obtain ⟨hfirst, hrest⟩ := List.forall_mem_cons.mp h
      exact .more hfirst (ih hrest)

/-- As many steps as there are parts take all of them. -/
theorem reads_iterate {parts : List Bytes} {value last : α} (h : Steps step parts value last) :
    Reads (iterate step parts.length value) parts.flatten last := by
  induction h with
  | done value => exact reads_pure value
  | more first _ ih => exact first.bind ih

/-- What every step keeps, all of them keep. -/
theorem gives_iterate {P : α → Prop} (h : ∀ value, P value → Gives (step value) P) (n : Nat)
    {value : α} (hvalue : P value) : Gives (iterate step n value) P := by
  induction n generalizing value with
  | zero => exact gives_pure hvalue
  | succ n ih => exact (h value hvalue).bind fun next hnext => ih hnext

end Iteration

end Parse

end Downlevel
