import Downlevel.Encode.Attribute
import Downlevel.Proofs.Pool.Lookup
import Downlevel.Proofs.Reading

/-!
# Attributes that are written and read again

A value is *kept* if, put into any pool and written, it is read again from the bytes with the
constants of the finished pool.  Lists of kept values are kept.

Attributes are read one after the other, each adding to a value.  `Adds` says that an attribute,
if it is there, leads from one value to another; `AddsAll` goes along a list of attributes.  What
comes of it is said for both walks over a class: the one that reads the attributes ends with the
last value, and the one that passes over them by their lengths ends behind the last byte.
-/

namespace Downlevel

namespace Encode

open Pool PoolM Parse

variable {α : Type}

/-- Written with any pool and read with the finished one, the value is there again. -/
def Kept (write : α → PoolM Bytes) (read : Constants → Parse α) (value : α) : Prop :=
  Puts (write value) fun constants bytes => Reads (read constants) bytes value

/-- A count that was written as two bytes is small, and is what these bytes say. -/
theorem count16_eq_ok {fault : WriteFault} {n : Nat} {bytes : Bytes} :
    count16 fault n = .ok bytes ↔ n < 65536 ∧ bytes = Bytes.ofU16 n.toUInt16 := by
  unfold count16
  split
  case isTrue h => simp [h, eq_comm]
  case isFalse h => simp [h]

/-- A count that was written as one byte is small, and is what this byte says. -/
theorem count8_eq_ok {fault : WriteFault} {n : Nat} {bytes : Bytes} :
    count8 fault n = .ok bytes ↔ n < 256 ∧ bytes = [n.toUInt8] := by
  unfold count8
  split
  case isTrue h => simp [h, eq_comm]
  case isFalse h => simp [h]

/-- A count that was written as four bytes is small, and is what these bytes say. -/
theorem count32_eq_ok {fault : WriteFault} {n : Nat} {bytes : Bytes} :
    count32 fault n = .ok bytes ↔ n < 4294967296 ∧ bytes = Bytes.ofU32 n.toUInt32 := by
  unfold count32
  split
  case isTrue h => simp [h, eq_comm]
  case isFalse h => simp [h]

/-- What has an index is written as that. -/
theorem indexed_eq_ok {work : PoolM UInt16} {pool pool' : Builder} {bytes : Bytes} :
    indexed work pool = .ok (bytes, pool') ↔
      ∃ index, work pool = .ok (index, pool') ∧ bytes = Bytes.ofU16 index := by
  simp only [indexed, work_bind_eq_ok, work_pure_eq_ok]
  constructor
  · rintro ⟨index, _, hindex, rfl, rfl⟩
    exact ⟨index, hindex, rfl⟩
  · rintro ⟨index, hindex, rfl⟩
    exact ⟨index, _, hindex, rfl, rfl⟩

/-- Attributes are written with their number in front. -/
theorem counted_eq_ok {bearer : String} {parts : List Bytes} {bytes : Bytes} :
    counted bearer parts = .ok bytes ↔
      parts.length < 65536 ∧ bytes = Bytes.ofU16 parts.length.toUInt16 ++ parts.flatten := by
  simp only [counted, bind_eq_ok, count16_eq_ok, pure_eq_ok]
  constructor
  · rintro ⟨_, ⟨hsmall, rfl⟩, rfl⟩
    exact ⟨hsmall, rfl⟩
  · rintro ⟨hsmall, rfl⟩
    exact ⟨_, ⟨hsmall, rfl⟩, rfl⟩

/-- What is put is written as its index. -/
theorem puts_indexed {work : PoolM UInt16} {Q : Constants → UInt16 → Prop} (h : Puts work Q) :
    Puts (indexed work) fun constants bytes =>
      ∃ index, bytes = Bytes.ofU16 index ∧ Q constants index :=
  h.map fun _ index hQ => ⟨index, rfl, hQ⟩

section Lists

variable {item : α → PoolM Bytes} {read : Constants → Parse α} {items : List α}

/-- What is promised of the bytes of each item, one behind the other. -/
theorem puts_each {Q : α → Constants → Bytes → Prop}
    (h : ∀ value ∈ items, Puts (item value) (Q value)) :
    Puts (each items item) fun constants bytes => ∃ parts, bytes = parts.flatten ∧
      List.Forall₂ (fun part value => Q value constants part) parts items :=
  (puts_mapM h).map fun _ parts hparts => ⟨parts, rfl, hparts.flip⟩

/-- Parts of the same length. -/
theorem length_flatten_of_forall₂ {size : Nat} {parts : List Bytes}
    (h : List.Forall₂ (fun part (_ : α) => part.length = size) parts items) :
    parts.flatten.length = size * items.length := by
  induction h with
  | nil => rfl
  | cons hfirst _ ih => rw [List.flatten_cons, List.length_append, hfirst, ih, List.length_cons,
      Nat.mul_succ, Nat.add_comm]

/-- A list whose items are read again as something is read again as the list of that. -/
theorem puts_listOf {β : Type} (what : String) {read : Constants → Parse β} {f : α → β}
    (h : ∀ value ∈ items, Puts (item value) fun constants bytes =>
      Reads (read constants) bytes (f value)) :
    Puts (listOf what items item) fun constants bytes =>
      Reads (Parse.listOf (read constants)) bytes (items.map f) := by
  refine (puts_lift fun count hcount _ => count16_eq_ok.mp hcount).bind fun count => ?_
  refine (puts_each h).map fun constants bytes hbytes hcount => ?_
  obtain ⟨parts, rfl, hparts⟩ := hbytes
  obtain ⟨hsmall, rfl⟩ := hcount
  rw [← List.length_map f] at hsmall ⊢
  exact reads_listOf (List.forall₂_map_right_iff.mpr hparts) hsmall

/-- **A list of values that are kept is kept.** -/
theorem kept_listOf (what : String) (h : ∀ value ∈ items, Kept item read value) :
    Kept (fun items => listOf what items item) (fun constants => Parse.listOf (read constants))
      items := by
  have hlist := puts_listOf what (f := id) h
  rwa [List.map_id] at hlist

/-- A short list of values that are kept is kept. -/
theorem kept_shortListOf (fault : WriteFault) (h : ∀ value ∈ items, Kept item read value) :
    Kept (fun items => do
      let count ← count8 fault items.length
      return count ++ (← each items item))
      (fun constants => Parse.shortListOf (read constants)) items := by
  refine (puts_lift fun count hcount _ => count8_eq_ok.mp hcount).bind fun count => ?_
  refine (puts_each h).map fun constants bytes hbytes hcount => ?_
  obtain ⟨parts, rfl, hparts⟩ := hbytes
  obtain ⟨hsmall, rfl⟩ := hcount
  exact reads_shortListOf hparts hsmall

/-- What is put and looked up again is kept as an index. -/
theorem kept_indexed {work : α → PoolM UInt16} {look : Constants → UInt16 → Except Error α}
    {value : α} (h : Puts (work value) fun constants index => look constants index = .ok value) :
    Kept (fun value => indexed (work value))
      (fun constants => do look constants (← u16)) value := by
  refine (puts_indexed h).mono fun constants bytes hbytes => ?_
  obtain ⟨index, rfl, hlook⟩ := hbytes
  exact (reads_u16 index).finish (reads_lift hlook)

end Lists

section Attributes

/-- The bytes of an attribute with the given name and contents. -/
def IsAttribute (constants : Constants) (name : String) (contents bytes : Bytes) : Prop :=
  contents.length < 4294967296 ∧ ∃ index, constants.table.utf8 index = .ok name ∧
    bytes = Bytes.ofU16 index ++ (Bytes.ofU32 contents.length.toUInt32 ++ contents)

/-- An attribute is written, and `Q` holds of its contents. -/
def Carries (name : String) (Q : Constants → Bytes → Prop) (attribute' : PoolM Bytes) : Prop :=
  Puts attribute' fun constants bytes =>
    ∃ contents, IsAttribute constants name contents bytes ∧ Q constants contents

/-- What is said of the contents of an attribute may be weakened. -/
theorem Carries.mono {name : String} {Q R : Constants → Bytes → Prop} {attribute' : PoolM Bytes}
    (h : Carries name Q attribute') (hQR : ∀ constants contents, Q constants contents →
      R constants contents) : Carries name R attribute' := by
  refine Puts.mono h fun constants bytes hbytes => ?_
  obtain ⟨contents, hattribute, hQ⟩ := hbytes
  exact ⟨contents, hattribute, hQR _ _ hQ⟩

/-- An attribute whose length follows from its contents carries them. -/
theorem carries_sized (name : String) {contents : PoolM Bytes} {Q : Constants → Bytes → Prop}
    (h : Puts contents Q) : Carries name Q (sized name contents) := by
  refine h.bind fun body => (puts_indexed (puts_utf8 name)).bind fun index => ?_
  refine (puts_lift fun length hlength _ => count32_eq_ok.mp hlength).map ?_
  rintro constants _ ⟨hsmall, rfl⟩ ⟨index, rfl, -, hname⟩ hbody
  exact ⟨body, ⟨hsmall, index, hname, List.append_assoc _ _ _⟩, hbody⟩

/-- An attribute whose length is known beforehand carries its contents, if they have it. -/
theorem carries_fixed (name : String) {length : Nat} {contents : PoolM Bytes}
    {Q : Constants → Bytes → Prop}
    (h : Puts contents fun constants bytes => bytes.length = length ∧ Q constants bytes) :
    Carries name Q (fixed name length contents) := by
  refine (puts_indexed (puts_utf8 name)).bind fun index => ?_
  refine (puts_lift fun length hlength _ => count32_eq_ok.mp hlength).bind fun size => ?_
  refine h.map ?_
  rintro constants body ⟨rfl, hbody⟩ ⟨hsmall, rfl⟩ ⟨index, rfl, -, hname⟩
  exact ⟨body, ⟨hsmall, index, hname, List.append_assoc _ _ _⟩, hbody⟩

/-- An attribute without contents. -/
theorem carries_marker (name : String) :
    Carries name (fun _ contents => contents = []) (marker name) :=
  carries_fixed name (puts_pure fun _ => ⟨rfl, rfl⟩)

/-- An attribute that consists of one index. -/
theorem carries_single (name : String) {work : PoolM UInt16} {Q : Constants → UInt16 → Prop}
    (h : Puts work Q) :
    Carries name (fun constants contents =>
      ∃ index, contents = Bytes.ofU16 index ∧ Q constants index) (single name work) := by
  refine carries_fixed name ((puts_indexed h).mono fun constants bytes hbytes => ⟨?_, hbytes⟩)
  obtain ⟨index, rfl, -⟩ := hbytes
  exact Bytes.length_ofU16 index

/-- An attribute that is kept as it is. -/
theorem carries_raw (kept : RawAttribute) :
    Carries kept.name (fun _ contents => contents = kept.bytes) (raw kept) := by
  refine (puts_indexed (puts_utf8 kept.name)).bind fun index => ?_
  refine (puts_lift fun length hlength _ => count32_eq_ok.mp hlength).map ?_
  rintro constants _ ⟨hsmall, rfl⟩ ⟨index, rfl, -, hname⟩
  exact ⟨kept.bytes, ⟨hsmall, index, hname, List.append_assoc _ _ _⟩, rfl⟩

/-- An attribute that lists classes. -/
theorem carries_classList (name : String) {classes : List ClassName}
    (h : ∀ cls ∈ classes, Name.isValid .className cls) :
    Carries name (fun constants contents =>
      Reads (Parse.listOf do constants.table.cls (← u16)) contents classes)
      (classList name classes) := by
  have hitem : ∀ cls ∈ classes, Puts (indexed (PoolM.cls cls)) fun constants bytes =>
      bytes.length = 2 ∧ Reads (do constants.table.cls (← u16)) bytes cls := by
    intro cls hmem
    refine (puts_indexed (puts_cls (h cls hmem))).mono fun constants bytes hbytes => ?_
    obtain ⟨index, rfl, -, hlook⟩ := hbytes
    exact ⟨Bytes.length_ofU16 index, (reads_u16 index).finish (reads_lift hlook)⟩
  refine carries_fixed name ?_
  refine (puts_lift fun count hcount _ => count16_eq_ok.mp hcount).bind fun count => ?_
  refine (puts_each hitem).map fun constants bytes hbytes hcount => ?_
  obtain ⟨parts, rfl, hparts⟩ := hbytes
  obtain ⟨hsmall, rfl⟩ := hcount
  refine ⟨?_, reads_listOf (hparts.imp fun _ _ h => h.2) hsmall⟩
  rw [List.length_append, length_flatten_of_forall₂ (hparts.imp fun _ _ h => h.1),
    Bytes.length_ofU16]

end Attributes

section Reading

variable {step : Constants → String → Nat → α → Parse α}

/-- Reading one attribute: its name, its length, and what it adds. -/
def readAttribute (step : Constants → String → Nat → α → Parse α) (constants : Constants)
    (value : α) : Parse α := do
  let name ← constants.table.utf8 (← u16)
  let length ← u32
  step constants name length.toNat value

/-- Passing over one attribute. -/
def skipAttribute (_ : Unit) : Parse Unit := do
  let _ ← u16
  let length ← u32
  skip length.toNat

/-- An attribute is read by its step. -/
theorem IsAttribute.reads {constants : Constants} {name : String} {contents bytes : Bytes}
    (h : IsAttribute constants name contents bytes) {value value' : α}
    (hstep : Reads (step constants name contents.length value) contents value') :
    Reads (readAttribute step constants value) bytes value' := by
  obtain ⟨hsmall, index, hname, rfl⟩ := h
  refine (reads_u16 index).bind (.look hname ((reads_u32 _).bind ?_))
  rwa [UInt32.toNat_ofNat_of_lt' hsmall]

/-- An attribute is passed over by its length. -/
theorem IsAttribute.skips {constants : Constants} {name : String} {contents bytes : Bytes}
    (h : IsAttribute constants name contents bytes) : Reads (skipAttribute ()) bytes () := by
  obtain ⟨hsmall, index, -, rfl⟩ := h
  refine (reads_u16 index).bind ((reads_u32 _).bind ?_)
  rw [UInt32.toNat_ofNat_of_lt' hsmall]
  exact reads_skip contents

/-- An attribute, if it is there, leads from one value to another. -/
def Adds (step : Constants → String → Nat → α → Parse α) (attribute' : Option (PoolM Bytes))
    (value value' : α) : Prop :=
  match attribute' with
  | none => value = value'
  | some work => ∃ name, Carries name (fun constants contents =>
      Reads (step constants name contents.length value) contents value') work

/-- Attributes lead from one value to another, one after the other. -/
inductive AddsAll (step : Constants → String → Nat → α → Parse α) : Attributes → α → α → Prop where
  | nil (value : α) : AddsAll step [] value value
  | cons {attribute' : Option (PoolM Bytes)} {rest : Attributes} {value between value' : α}
      (first : Adds step attribute' value between) (others : AddsAll step rest between value') :
      AddsAll step (attribute' :: rest) value value'

/-- Attributes behind attributes. -/
theorem AddsAll.append {front back : Attributes} {value between value' : α}
    (hfront : AddsAll step front value between) (hback : AddsAll step back between value') :
    AddsAll step (front ++ back) value value' := by
  induction hfront with
  | nil value => exact hback
  | cons first _ ih => exact .cons first (ih hback)

/-- An attribute for what an option holds. -/
theorem adds_map {β : Type} (name : String) (set : Option β → α) {held : Option β}
    {write : β → PoolM Bytes}
    (h : ∀ new, held = some new → Carries name (fun constants contents =>
      Reads (step constants name contents.length (set none)) contents (set (some new)))
      (write new)) : Adds step (held.map write) (set none) (set held) := by
  cases held with
  | none => exact rfl
  | some new => exact ⟨name, h new rfl⟩

/-- An attribute for what an option holds, which is read as it was written and taken once. -/
theorem adds_once {β : Type} (name : String) (set : Option β → α) {held : Option β}
    {write : β → PoolM Bytes} {read : Constants → Parse β}
    (h : ∀ new, held = some new → Carries name (fun constants contents =>
      Reads (read constants) contents new) (write new))
    (hstep : ∀ constants size, step constants name size (set none) = do
      let found ← read constants
      let new ← Decode.once name none found
      return set new) : Adds step (held.map write) (set none) (set held) := by
  refine adds_map name set fun new hnew => (h new hnew).mono fun constants contents hread => ?_
  rw [hstep]
  exact hread.finish (.look rfl (reads_pure _))

/-- An attribute for what an option holds, which is looked up as it was put and taken once. -/
theorem adds_look {β : Type} (name : String) (set : Option β → α) {held : Option β}
    {work : β → PoolM UInt16} {look : Constants → UInt16 → Except Error β}
    (h : ∀ new, held = some new →
      Puts (work new) fun constants index => look constants index = .ok new)
    (hstep : ∀ constants size, step constants name size (set none) = do
      let found ← look constants (← u16)
      let new ← Decode.once name none found
      return set new) :
    Adds step (held.map fun new => single name (work new)) (set none) (set held) := by
  refine adds_map name set fun new hnew => (carries_single name (h new hnew)).mono ?_
  rintro constants _ ⟨index, rfl, hlook⟩
  rw [hstep]
  exact (reads_u16 index).finish (.look hlook (.look rfl (reads_pure _)))

/-- An attribute that is a mark. -/
theorem adds_marker (set : Bool → α) {name : String} {marked : Bool}
    (h : ∀ constants, Reads (step constants name 0 (set false)) [] (set true)) :
    Adds step (given marked (marker name)) (set false) (set marked) := by
  cases marked with
  | false => exact rfl
  | true =>
      refine ⟨name, (carries_marker name).mono ?_⟩
      rintro constants _ rfl
      exact h constants

/-- An attribute that is left out if it has no entries. -/
theorem adds_entries {β : Type} (name : String) {items : List β} {work : PoolM Bytes}
    {value value' : α} (hempty : items = [] → value = value')
    (hsome : items ≠ [] → Carries name (fun constants contents =>
      Reads (step constants name contents.length value) contents value') work) :
    Adds step (given (!items.isEmpty) work) value value' := by
  cases items with
  | nil => exact hempty rfl
  | cons item items => exact ⟨name, hsome (List.cons_ne_nil _ _)⟩

/-- Attributes of this name are kept as they are; `add` puts them to the others. -/
def IsRaw (step : Constants → String → Nat → α → Parse α) (add : α → RawAttribute → α)
    (name : String) : Prop :=
  ∀ constants size value, step constants name size value = do
    return add value (← Decode.raw name size)

/-- Attributes that are kept as they are lead on one by one. -/
theorem addsAll_raw {add : α → RawAttribute → α} {kept : List RawAttribute}
    (h : ∀ one ∈ kept, IsRaw step add one.name) (value : α) :
    AddsAll step (kept.map fun one => some (raw one)) value (kept.foldl add value) := by
  induction kept generalizing value with
  | nil => exact .nil value
  | cons one kept ih =>
      refine .cons ⟨one.name, ?_⟩
        (ih (fun other hmem => h other (List.mem_cons_of_mem _ hmem)) (add value one))
      refine (carries_raw one).mono ?_
      rintro constants _ rfl
      rw [h one List.mem_cons_self]
      exact ((reads_take one.bytes).map (RawAttribute.mk one.name)).map (add value)

/-- **Attributes that are written are read again, and can be passed over.** -/
theorem puts_present {attributes' : Attributes} {value value' : α}
    (h : AddsAll step attributes' value value') :
    Puts (present attributes') fun constants parts =>
      Steps (readAttribute step constants) parts value value' ∧ Steps skipAttribute parts () () := by
  induction h with
  | nil value => exact puts_pure fun _ => ⟨.done value, .done ()⟩
  | @cons attribute' rest value between value' first _ ih =>
      cases attribute' with
      | none =>
          obtain rfl : value = between := first
          exact ih
      | some work =>
          obtain ⟨name, hwork⟩ := first
          show Puts ((work :: rest.filterMap id).mapM id) _
          rw [List.mapM_cons]
          refine Puts.bind hwork fun part => ih.map ?_
          rintro constants parts ⟨hread, hskip⟩ ⟨contents, hattribute, hcontents⟩
          exact ⟨.more (hattribute.reads hcontents) hread, .more hattribute.skips hskip⟩

/-- Attributes with their number in front are read again, and can be passed over. -/
theorem reads_counted {bearer : String} {parts : List Bytes} {bytes : Bytes}
    (hbytes : counted bearer parts = .ok bytes) {constants : Constants} {value value' : α}
    (h : Steps (readAttribute step constants) parts value value' ∧ Steps skipAttribute parts () ()) :
    Reads (Decode.attributes constants.table (step constants) value) bytes value' ∧
      Reads Decode.skipAttributes bytes () := by
  obtain ⟨hsmall, rfl⟩ := counted_eq_ok.mp hbytes
  refine ⟨(reads_u16 _).bind ?_, (reads_u16 _).bind ?_⟩
  · rw [UInt16.toNat_ofNat_of_lt' hsmall]
    exact reads_iterate h.1
  · rw [UInt16.toNat_ofNat_of_lt' hsmall]
    exact reads_iterate h.2

end Reading

end Encode

end Downlevel
