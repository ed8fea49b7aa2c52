import Downlevel.Decode.Class
import Downlevel.Proofs.Reading

/-!
# The two walks over the members of a class file

The attributes of a class are needed before its members can be read, but stand behind them.  So a
first walk passes over the members by the lengths of their attributes, and a second one reads them
from where the first started.  Each length tells how many bytes its attribute has; but most readers
of attributes do not look at it, and take as many bytes as the contents need.

If the contents of every attribute of a member take as many bytes as its length says, the second walk
ends where the first one did.  Nothing makes sure of it, and a class file in which a length says
something else may be read nonetheless: with members that the first walk did not see.

* `Decode.Measures` — which attributes are decoded from exactly as many bytes as their length says,
  and which lengths nobody looks at;
* `Decode.MembersExact` — the attributes of members are decoded from as many bytes as their lengths
  say;
* `Decode.walks_agree` — then both walks end at the same place;
* `Decode.walks_differ` — and otherwise they may not.
-/

namespace Downlevel

/-- The cursor, `n` bytes further on. -/
def Cursor.forward (cursor : Cursor) (n : Nat) : Cursor :=
  ⟨cursor.offset + n, cursor.rest.drop n⟩

/-- Moving on twice is moving on by both numbers of bytes. -/
@[simp] theorem Cursor.forward_forward (cursor : Cursor) (m n : Nat) :
    (cursor.forward m).forward n = cursor.forward (m + n) := by
  simp only [forward, List.drop_drop, Nat.add_assoc]

namespace Parse

variable {α β : Type}

/-- Reading takes exactly `n` bytes, if it succeeds. -/
def Takes (parse : Parse α) (n : Nat) : Prop :=
  ∀ cursor value after, parse cursor = .ok (value, after) → after = cursor.forward n

/-- A value takes no bytes. -/
theorem takes_pure (value : α) : Takes (pure value : Parse α) 0 := by
  intro cursor found after h
  obtain ⟨-, rfl⟩ := work_pure_eq_ok.mp h
  rfl

/-- What only has an outcome takes no bytes. -/
theorem takes_lift (outcome : Except Error α) : Takes (liftM outcome : Parse α) 0 := by
  intro cursor found after h
  obtain ⟨-, rfl⟩ := work_lift_eq_ok.mp h
  rfl

/-- Reading in sequence takes the bytes of both parts. -/
theorem Takes.bind {parse : Parse α} {next : α → Parse β} {m n : Nat} (h : Takes parse m)
    (hnext : ∀ value, Takes (next value) n) : Takes (parse >>= next) (m + n) := by
  intro cursor found after hrun
  obtain ⟨value, between, hfirst, hrest⟩ := work_bind_eq_ok.mp hrun
  rw [hnext value between found after hrest, h cursor value between hfirst, Cursor.forward_forward]

/-- A word takes two bytes. -/
theorem takes_u16 : Takes u16 2 := by
  intro cursor value after h
  obtain ⟨place, _ | ⟨a, _ | ⟨b, rest⟩⟩⟩ := cursor
  · cases h
  · cases h
  · cases h
    rfl

/-- Behind what is split off stands the rest. -/
theorem rest_of_splitExactly {n : Nat} {done items front rest : List α}
    (h : splitExactly n done items = some (front, rest)) : rest = items.drop n := by
  induction n generalizing done items with
  | zero =>
      cases h
      rfl
  | succ n ih =>
      cases items with
      | nil => cases h
      | cons item items =>
          rw [List.drop_succ_cons]
          exact ih h

/-- As many bytes are taken as were asked for. -/
theorem takes_take (n : Nat) : Takes (take n) n := by
  intro cursor bytes after h
  unfold take at h
  split at h
  next front rest hsplit =>
    cases h
    rw [Cursor.forward, rest_of_splitExactly hsplit]
  next => cases h

end Parse

namespace Decode

open Parse

/-! ## Lengths that are looked at -/

section Measures

variable {α β : Type}

/-- The reader of an attribute takes exactly as many bytes as the length says, unless it is one of
those it knows the contents of, and then it does not look at the length. -/
structure Measures (known : List String) (step : String → Nat → α → Parse α) : Prop where
  exact : ∀ name, name ∉ known → ∀ length value, Takes (step name length value) length
  blind : ∀ name ∈ known, ∀ length length' value, step name length value = step name length' value

/-- An attribute that is kept as it is takes as many bytes as its length says. -/
theorem takes_raw (name : String) (length : Nat) (use : RawAttribute → β) :
    Takes (do return use (← raw name length) : Parse β) length :=
  ((takes_take length).bind fun _ => takes_pure _).bind fun _ => takes_pure _

/-- The attributes with annotations. -/
def annotNames : List String :=
  ["RuntimeVisibleAnnotations", "RuntimeInvisibleAnnotations", "RuntimeVisibleTypeAnnotations",
    "RuntimeInvisibleTypeAnnotations"]

/-- Other attributes have no annotations. -/
theorem annotAttribute_eq_none {pool : Pool.Table} {name : String} (h : name ∉ annotNames)
    (old : Annots) : annotAttribute? pool name old = none := by
  unfold annotAttribute?
  split
  case h_5 => rfl
  all_goals exact absurd (by simp [annotNames]) h

/-- The attributes of record components whose contents are known. -/
def componentNames : List String :=
  "Signature" :: annotNames

/-- The reader of record components. -/
theorem measures_component (pool : Pool.Table) :
    Measures componentNames (componentAttribute pool) := by
  constructor
  · intro name hname length value
    simp only [componentNames, List.mem_cons, not_or] at hname
    unfold componentAttribute
    simp only [annotAttribute_eq_none hname.2]
    split
    case h_2 => exact takes_raw name length _
    all_goals simp at hname
  · intro name hname length length' value
    simp only [componentNames, annotNames, List.mem_cons, List.not_mem_nil, or_false] at hname
    rcases hname with rfl | rfl | rfl | rfl | rfl <;> rfl

/-- The attributes of fields whose contents are known. -/
def fieldNames : List String :=
  "Deprecated" :: "Synthetic" :: "ConstantValue" :: "Signature" :: annotNames

/-- The reader of fields. -/
theorem measures_field (pool : Pool.Table) :
    Measures fieldNames (fieldAttribute pool) := by
  constructor
  · intro name hname length value
    simp only [fieldNames, List.mem_cons, not_or] at hname
    unfold fieldAttribute
    simp only [annotAttribute_eq_none hname.2.2.2.2]
    split
    case h_5 => exact takes_raw name length _
    all_goals simp at hname
  · intro name hname length length' value
    simp only [fieldNames, annotNames, List.mem_cons, List.not_mem_nil, or_false] at hname
    rcases hname with rfl | rfl | rfl | rfl | rfl | rfl | rfl | rfl <;> rfl

/-- The attributes of methods whose contents are known. -/
def methodNames : List String :=
  "Deprecated" :: "Synthetic" :: "Code" :: "Exceptions" :: "Signature" ::
    "RuntimeVisibleParameterAnnotations" :: "RuntimeInvisibleParameterAnnotations" ::
    "AnnotationDefault" :: "MethodParameters" :: annotNames

/-- The reader of methods. -/
theorem measures_method (pool : Pool.Table) (bootstraps : Array Pool.Bootstrap) :
    Measures methodNames (methodAttribute pool bootstraps) := by
  constructor
  · intro name hname length value
    simp only [methodNames, List.mem_cons, not_or] at hname
    unfold methodAttribute
    simp only [annotAttribute_eq_none hname.2.2.2.2.2.2.2.2.2]
    split
    case h_10 => exact takes_raw name length _
    all_goals simp at hname
  · intro name hname length length' value
    simp only [methodNames, annotNames, List.mem_cons, List.not_mem_nil, or_false] at hname
    rcases hname with rfl | rfl | rfl | rfl | rfl | rfl | rfl | rfl | rfl | rfl | rfl | rfl | rfl <;> rfl

/-- The attributes of classes whose contents are known, without the one that may hold anything. -/
def classNames : List String :=
  "Deprecated" :: "Synthetic" :: "InnerClasses" :: "EnclosingMethod" :: "Signature" ::
    "SourceFile" :: "Module" :: "ModulePackages" :: "ModuleMainClass" :: "NestHost" ::
    "NestMembers" :: "PermittedSubclasses" :: "Record" :: "BootstrapMethods" :: annotNames

/-- The reader of classes. -/
theorem measures_class (pool : Pool.Table) :
    Measures classNames (classAttribute pool) := by
  constructor
  · intro name hname length state
    simp only [classNames, List.mem_cons, not_or] at hname
    unfold classAttribute
    simp only [annotAttribute_eq_none hname.2.2.2.2.2.2.2.2.2.2.2.2.2.2]
    split
    case h_7 =>
      exact (takes_take length).bind fun found => (takes_lift _).bind fun new => takes_pure _
    case h_16 => exact takes_raw _ length _
    all_goals simp at hname
  · intro name hname length length' state
    simp only [classNames, annotNames, List.mem_cons, List.not_mem_nil, or_false] at hname
    rcases hname with rfl | rfl | rfl | rfl | rfl | rfl | rfl | rfl | rfl | rfl | rfl | rfl | rfl |
      rfl | rfl | rfl | rfl | rfl <;> rfl

/-- The attributes of code whose contents are known, without the one that is passed over. -/
def codeNames : List String :=
  ["LineNumberTable", "LocalVariableTable", "LocalVariableTypeTable"]

/-- The reader of code. -/
theorem measures_code (pool : Pool.Table) (size : UInt16) :
    Measures codeNames (codeAttribute pool size) := by
  constructor
  · intro name hname length tables
    simp only [codeNames, List.mem_cons, not_or] at hname
    unfold codeAttribute
    split
    case h_1 =>
      intro cursor next after h
      obtain ⟨_, between, hskip, hpure⟩ := work_bind_eq_ok.mp h
      obtain ⟨-, rfl⟩ := work_pure_eq_ok.mp hpure
      cases hskip
      rfl
    case h_5 => exact takes_raw _ length _
    all_goals simp at hname
  · intro name hname length length' tables
    simp only [codeNames, List.mem_cons, List.not_mem_nil, or_false] at hname
    rcases hname with rfl | rfl | rfl <;> rfl

end Measures

/-! ## The walks -/

section Members

variable {α : Type} (pool : Pool.Table) (header : Parse α) (step : String → Nat → α → Parse α)

/-- Reads the name and the length of an attribute. -/
def attributeHeader : Parse (String × UInt32) := do
  let name ← pool.utf8 (← u16)
  return (name, ← u32)

/-- From a cursor on, `count` attributes are decoded from exactly as many bytes as their lengths
say. -/
def ExactFrom : Nat → α → Cursor → Prop
  | 0, _, _ => True
  | count + 1, value, cursor => ∀ name length body,
      attributeHeader pool cursor = .ok ((name, length), body) →
        ∀ next after, step name length.toNat value body = .ok (next, after) →
          after = body.forward length.toNat ∧ ExactFrom count next after

/-- The attributes at a cursor are decoded from exactly as many bytes as their lengths say. -/
def AttributesExact (initial : α) (cursor : Cursor) : Prop :=
  ∀ count first, u16 cursor = .ok (count, first) → ExactFrom pool step count.toNat initial first

/-- From a cursor on, `count` members have attributes that are decoded from exactly as many bytes as
their lengths say.  `header` is what stands in front of the attributes. -/
def MembersExactFrom : Nat → Cursor → Prop
  | 0, _ => True
  | count + 1, cursor => ∀ initial body, header cursor = .ok (initial, body) →
      AttributesExact pool step initial body ∧
        ∀ member after, attributes pool step initial body = .ok (member, after) →
          MembersExactFrom count after

/-- The members at a cursor have attributes that are decoded from exactly as many bytes as their
lengths say. -/
def MembersExact (cursor : Cursor) : Prop :=
  ∀ count first, u16 cursor = .ok (count, first) →
    MembersExactFrom pool header step count.toNat first

variable {pool header step} {cursor after : Cursor}

/-- Exact attributes are passed over as they are read. -/
theorem iterate_forward {count : Nat} {value next : α}
    (hexact : ExactFrom pool step count value cursor)
    (h : iterate (fun value => do
      let name ← pool.utf8 (← u16)
      let length ← u32
      step name length.toNat value) count value cursor = .ok (next, after)) :
    iterate (fun _ => do
      let _ ← u16
      let length ← u32
      skip length.toNat) count () cursor = .ok ((), after) := by
  induction count generalizing value cursor with
  | zero =>
      cases h
      rfl
  | succ count ih =>
      obtain ⟨between, middle, hstep, hrest⟩ := work_bind_eq_ok.mp h
      obtain ⟨index, behindName, hindex, hstep⟩ := work_bind_eq_ok.mp hstep
      obtain ⟨name, _, hname, hstep⟩ := work_bind_eq_ok.mp hstep
      obtain ⟨hfound, rfl⟩ := work_lift_eq_ok.mp hname
      obtain ⟨length, body, hlength, hstep⟩ := work_bind_eq_ok.mp hstep
      have hheader : attributeHeader pool cursor = .ok ((name, length), body) := by
        refine work_bind_eq_ok.mpr ⟨index, behindName, hindex, ?_⟩
        refine work_bind_eq_ok.mpr ⟨name, behindName, hname, ?_⟩
        exact work_bind_eq_ok.mpr ⟨length, body, hlength, rfl⟩
      obtain ⟨rfl, hothers⟩ := hexact name length body hheader between middle hstep
      refine work_bind_eq_ok.mpr ⟨(), body.forward length.toNat, ?_, ih hothers hrest⟩
      refine work_bind_eq_ok.mpr ⟨index, behindName, hindex, ?_⟩
      exact work_bind_eq_ok.mpr ⟨length, body, hlength, rfl⟩

/-- **Exact attributes are passed over as they are read.** -/
theorem attributes_forward {initial value : α} (hexact : AttributesExact pool step initial cursor)
    (h : attributes pool step initial cursor = .ok (value, after)) :
    skipAttributes cursor = .ok ((), after) := by
  obtain ⟨count, first, hcount, hrest⟩ := work_bind_eq_ok.mp h
  refine work_bind_eq_ok.mpr ⟨count, first, hcount, ?_⟩
  exact iterate_forward (hexact count first hcount) hrest

/-- Members with exact attributes are passed over as they are read, one by one. -/
theorem repeatFrom_forward (hheader : Takes header 6) {fault : ReadFault} {count : Nat}
    {done members : List α} (hexact : MembersExactFrom pool header step count cursor)
    (h : repeatFrom ((header >>= attributes pool step).within fault) count done cursor =
      .ok (members, after)) :
    iterate (fun _ => do
      skip 6
      skipAttributes) count () cursor = .ok ((), after) := by
  induction count generalizing done cursor with
  | zero =>
      cases h
      rfl
  | succ count ih =>
      obtain ⟨member, middle, hmember, hrest⟩ := work_bind_eq_ok.mp h
      obtain ⟨initial, body, hinitial, hattributes⟩ :=
        work_bind_eq_ok.mp (within_eq_ok.mp hmember)
      obtain ⟨hhere, hothers⟩ := hexact initial body hinitial
      obtain rfl := hheader cursor initial body hinitial
      refine work_bind_eq_ok.mpr ⟨(), middle, ?_, ih (hothers member middle hattributes) hrest⟩
      exact work_bind_eq_ok.mpr ⟨(), cursor.forward 6, rfl, attributes_forward hhere hattributes⟩

/-- **Members with exact attributes are passed over as they are read.** -/
theorem members_forward (hheader : Takes header 6) {fault : ReadFault} {members : List α}
    (hexact : MembersExact pool header step cursor)
    (h : listOf ((header >>= attributes pool step).within fault) cursor = .ok (members, after)) :
    skipMembers cursor = .ok ((), after) := by
  obtain ⟨count, first, hcount, hrest⟩ := work_bind_eq_ok.mp h
  refine work_bind_eq_ok.mpr ⟨count, first, hcount, ?_⟩
  exact repeatFrom_forward hheader (hexact count first hcount) hrest

end Members

/-! ## What a class is read from -/

variable (pool : Pool.Table)

/-- Reads what stands in front of the attributes of a field. -/
def fieldHeader : Parse Field := do
  let access := FieldAccess.ofBits (← u16)
  let name ← pool.named .fieldName (← u16)
  let descriptor ← pool.named .fieldDescriptor (← u16)
  return { access, name, descriptor }

/-- Reads what stands in front of the attributes of a method. -/
def methodHeader : Parse Method := do
  let access := MethodAccess.ofBits (← u16)
  let name ← pool.named .methodName (← u16)
  let descriptor ← pool.named .methodDescriptor (← u16)
  return { access, name, descriptor }

/-- Reads what stands in front of the members of a class, into a class without members. -/
def front : Parse (Pool.Table × ClassFile) := do
  let (version, pool) ← header
  let access := ClassAccess.ofBits (← u16)
  let name ← pool.cls (← u16)
  let superClass ← Pool.Table.optional (← u16) pool.cls
  let interfaces ← classes pool
  return (pool, { version, access, name, superClass, interfaces })

/-- A field is what stands in front of its attributes, and the attributes. -/
theorem field_eq : field pool = fieldHeader pool >>= attributes pool (fieldAttribute pool) := by
  simp only [field, fieldHeader, bind_assoc, pure_bind]

/-- A method is what stands in front of its attributes, and the attributes. -/
theorem method_eq (bootstraps : Array Pool.Bootstrap) : method pool bootstraps =
    methodHeader pool >>= attributes pool (methodAttribute pool bootstraps) := by
  simp only [method, methodHeader, bind_assoc, pure_bind]

/-- In front of the attributes of a field stand six bytes. -/
theorem takes_fieldHeader : Takes (fieldHeader pool) 6 :=
  takes_u16.bind fun _ => takes_u16.bind fun _ => (takes_lift _).bind fun _ =>
    takes_u16.bind fun _ => (takes_lift _).bind fun _ => takes_pure _

/-- In front of the attributes of a method stand six bytes. -/
theorem takes_methodHeader : Takes (methodHeader pool) 6 :=
  takes_u16.bind fun _ => takes_u16.bind fun _ => (takes_lift _).bind fun _ =>
    takes_u16.bind fun _ => (takes_lift _).bind fun _ => takes_pure _

/-- The places that the two walks come to, and what is known at them. -/
structure Walks where
  pool : Pool.Table
  /-- The class, as far as it is known in front of the members. -/
  initial : ClassFile
  /-- Where the members start. -/
  members : Cursor
  /-- Where the first walk finds the attributes of the class. -/
  found : Cursor
  bootstraps : Array Pool.Bootstrap
  /-- Where the second walk comes to the methods. -/
  between : Cursor
  /-- Where the second walk ends. -/
  last : Cursor

/-- The walks over the members of a class that is read from bytes. -/
structure Walks.Of (walks : Walks) (bytes : Bytes) (cls : ClassFile) : Prop where
  front : front (Cursor.start bytes) = .ok ((walks.pool, walks.initial), walks.members)
  first : (do skipMembers; skipMembers : Parse Unit) walks.members = .ok ((), walks.found)
  attributes : ∃ read bootstraps behind, attributes walks.pool (classAttribute walks.pool)
      (walks.initial, none) walks.found = .ok ((read, bootstraps), behind) ∧
    walks.bootstraps = (bootstraps.getD []).toArray ∧
    cls = { read with fields := cls.fields, methods := cls.methods }
  fields : listOf ((field walks.pool).within (.fieldOfClass walks.initial.name)) walks.members =
    .ok (cls.fields, walks.between)
  methods : listOf ((method walks.pool walks.bootstraps).within
    (.methodOfClass walks.initial.name)) walks.between = .ok (cls.methods, walks.last)

/-- The attributes of all members are decoded from exactly as many bytes as their lengths say. -/
structure Walks.Exact (walks : Walks) : Prop where
  fields : MembersExact walks.pool (fieldHeader walks.pool) (fieldAttribute walks.pool)
    walks.members
  methods : MembersExact walks.pool (methodHeader walks.pool)
    (methodAttribute walks.pool walks.bootstraps) walks.between

/-- Whatever class is read, both walks were taken, and the class is read up to the end of the
second. -/
theorem Walks.of_cls {bytes : Bytes} {cls : ClassFile} {last : Cursor}
    (h : Decode.cls (Cursor.start bytes) = .ok (cls, last)) :
    ∃ walks : Walks, walks.Of bytes cls ∧ walks.last = last := by
  obtain ⟨⟨version, pool⟩, c1, hheader, h⟩ := work_bind_eq_ok.mp h
  obtain ⟨access, c2, haccess, h⟩ := work_bind_eq_ok.mp h
  obtain ⟨nameIndex, c3, hnameIndex, h⟩ := work_bind_eq_ok.mp h
  obtain ⟨name, c4, hname, h⟩ := work_bind_eq_ok.mp h
  obtain ⟨superIndex, c5, hsuperIndex, h⟩ := work_bind_eq_ok.mp h
  obtain ⟨superClass, c6, hsuper, h⟩ := work_bind_eq_ok.mp h
  obtain ⟨interfaces, members, hinterfaces, h⟩ := work_bind_eq_ok.mp h
  obtain ⟨_, _, hget, h⟩ := work_bind_eq_ok.mp h
  obtain ⟨rfl, rfl⟩ := work_get_eq_ok.mp hget
  obtain ⟨_, c7, hskipFields, h⟩ := work_bind_eq_ok.mp h
  obtain ⟨_, found, hskipMethods, h⟩ := work_bind_eq_ok.mp h
  obtain ⟨⟨read, bootstraps⟩, behind, hattributes, h⟩ := work_bind_eq_ok.mp h
  obtain ⟨_, _, hset, h⟩ := work_bind_eq_ok.mp h
  obtain rfl := work_set_eq_ok.mp hset
  obtain ⟨fields, between, hfields, h⟩ := work_bind_eq_ok.mp h
  obtain ⟨methods, _, hmethods, h⟩ := work_bind_eq_ok.mp h
  obtain ⟨rfl, rfl⟩ := work_pure_eq_ok.mp h
  let initial : ClassFile :=
    { version, access := ClassAccess.ofBits access, name, superClass, interfaces }
  refine ⟨⟨pool, initial, members, found, (bootstraps.getD []).toArray, between, _⟩, ?_, rfl⟩
  constructor
  case first =>
    exact work_bind_eq_ok.mpr ⟨(), c7, hskipFields, hskipMethods⟩
  case attributes =>
    exact ⟨read, bootstraps, behind, within_eq_ok.mp hattributes, rfl, rfl⟩
  case fields => exact hfields
  case methods => exact hmethods
  case front =>
    refine work_bind_eq_ok.mpr ⟨(version, pool), c1, hheader, ?_⟩
    refine work_bind_eq_ok.mpr ⟨access, c2, haccess, ?_⟩
    refine work_bind_eq_ok.mpr ⟨nameIndex, c3, hnameIndex, ?_⟩
    refine work_bind_eq_ok.mpr ⟨name, c4, hname, ?_⟩
    refine work_bind_eq_ok.mpr ⟨superIndex, c5, hsuperIndex, ?_⟩
    refine work_bind_eq_ok.mpr ⟨superClass, c6, hsuper, ?_⟩
    exact work_bind_eq_ok.mpr ⟨interfaces, members, hinterfaces, rfl⟩

/-- Exact members are passed over as they are read. -/
theorem Walks.Of.last_eq_found {walks : Walks} {bytes : Bytes} {cls : ClassFile}
    (hof : walks.Of bytes cls) (hexact : walks.Exact) : walks.last = walks.found := by
  obtain ⟨_, middle, hskipFields, hskipMethods⟩ := work_bind_eq_ok.mp hof.first
  have hfields := hof.fields
  have hmethods := hof.methods
  rw [field_eq] at hfields
  rw [method_eq] at hmethods
  have hbetween := members_forward (takes_fieldHeader walks.pool) hexact.fields hfields
  have hlast := members_forward (takes_methodHeader walks.pool) hexact.methods hmethods
  rw [hskipFields] at hbetween
  obtain ⟨-, rfl⟩ := Prod.mk.inj (Except.ok.inj hbetween)
  rw [hskipMethods] at hlast
  exact (Prod.mk.inj (Except.ok.inj hlast)).2.symm

/-- **The two walks agree where the lengths are right.**  Attributes that are kept as they are, the
debug extension of the source and the frames of code are taken by their lengths; no other reader of
an attribute looks at the length.  Reading a class takes two walks over its members, up to the end of
the second; and this one ends where the first one found the attributes of the class, if the
attributes of all members are decoded from exactly as many bytes as their lengths say. -/
theorem walks_agree :
    (∀ pool, Measures componentNames (componentAttribute pool) ∧
      Measures fieldNames (fieldAttribute pool) ∧
      (∀ bootstraps, Measures methodNames (methodAttribute pool bootstraps)) ∧
      Measures classNames (classAttribute pool) ∧
      ∀ size, Measures codeNames (codeAttribute pool size)) ∧
    (∀ bytes cls last, Decode.cls (Cursor.start bytes) = .ok (cls, last) →
      ∃ walks : Walks, walks.Of bytes cls ∧ walks.last = last) ∧
    ∀ (walks : Walks) bytes cls, walks.Of bytes cls → walks.Exact → walks.last = walks.found := by
  refine ⟨?measures, ?taken, ?agree⟩
  case measures =>
    intro pool
    exact ⟨measures_component pool, measures_field pool, measures_method pool,
      measures_class pool, measures_code pool⟩
  case taken =>
    intro bytes cls last h
    exact Walks.of_cls h
  case agree =>
    intro walks bytes cls hof hexact
    exact hof.last_eq_found hexact

/-! ## A length that says too much -/

deriving instance DecidableEq for Cursor
deriving instance DecidableEq for Pool.Table

/-- The bytes of a class `a/A` with a deprecated field.  The attribute that says so has nothing to
say otherwise; but its length promises some contents, and they are there. -/
def deprecatedBytes (contents : Bytes) : Bytes :=
  [0xca, 0xfe, 0xba, 0xbe, 0x00, 0x00, 0x00, 0x34, 0x00, 0x0a, 0x01, 0x00, 0x03, 0x61, 0x2f, 0x41,
    0x07, 0x00, 0x01, 0x01, 0x00, 0x10, 0x6a, 0x61, 0x76, 0x61, 0x2f, 0x6c, 0x61, 0x6e, 0x67, 0x2f,
    0x4f, 0x62, 0x6a, 0x65, 0x63, 0x74, 0x07, 0x00, 0x03, 0x01, 0x00, 0x01, 0x66, 0x01, 0x00, 0x01,
    0x49, 0x01, 0x00, 0x0a, 0x44, 0x65, 0x70, 0x72, 0x65, 0x63, 0x61, 0x74, 0x65, 0x64, 0x01, 0x00,
    0x01, 0x67, 0x01, 0x00, 0x03, 0x28, 0x29, 0x56, 0x00, 0x20, 0x00, 0x02, 0x00, 0x04, 0x00, 0x00,
    0x00, 0x01, 0x00, 0x00, 0x00, 0x05, 0x00, 0x06, 0x00, 0x01, 0x00, 0x07] ++
    Bytes.ofU32 (UInt32.ofNat contents.length) ++ contents ++ [0x00, 0x00, 0x00, 0x00]

/-- A class with a deprecated field, and with the methods that a reader finds. -/
def deprecatedClass (methods : List Method) : ClassFile :=
  { version := ⟨52, 0⟩, access := ClassAccess.ofBits 0x20, name := "a/A"
    superClass := some "java/lang/Object", interfaces := []
    fields := [{ access := FieldAccess.ofBits 0, name := "f", descriptor := "I"
                 isDeprecated := true }]
    methods }

/-- The pool of that class. -/
def deprecatedPool : Pool.Table :=
  ⟨#[none, some (.utf8 (.ofString "a/A")), some (.cls 1),
    some (.utf8 (.ofString "java/lang/Object")), some (.cls 3), some (.utf8 (.ofString "f")),
    some (.utf8 (.ofString "I")), some (.utf8 (.ofString "Deprecated")),
    some (.utf8 (.ofString "g")), some (.utf8 (.ofString "()V"))]⟩

/-- The walks over the members of that class, up to certain places. -/
def deprecatedWalks (contents : Bytes) (found between last : Cursor) : Walks :=
  { pool := deprecatedPool, initial := { deprecatedClass [] with fields := [] }
    members := (Cursor.start (deprecatedBytes contents)).forward 80
    bootstraps := #[], found, between, last }

/-- The walks over the members of the class whose attribute has no contents. -/
def shortWalks : Walks :=
  deprecatedWalks [] ⟨98, [0x00, 0x00]⟩ ⟨96, [0x00, 0x00, 0x00, 0x00]⟩ ⟨98, [0x00, 0x00]⟩

/-- Both walks find no methods. -/
theorem of_shortWalks : shortWalks.Of (deprecatedBytes []) (deprecatedClass []) := by
  refine ⟨rfl, rfl, ?_, by decide +kernel, rfl⟩
  exact ⟨{ deprecatedClass [] with fields := [] }, none, ⟨100, []⟩, rfl, rfl, rfl⟩

/-- The attribute is decoded from no bytes, as its length says. -/
theorem exact_shortWalks : shortWalks.Exact := by
  constructor
  case fields =>
    intro count first hcount
    have hone : u16 shortWalks.members = .ok (1, shortWalks.members.forward 2) := rfl
    cases hone.symm.trans hcount
    intro initial body hheader
    have hfield : fieldHeader shortWalks.pool (shortWalks.members.forward 2) =
        .ok ({ access := FieldAccess.ofBits 0, name := "f", descriptor := "I" },
          shortWalks.members.forward 8) := by
      rfl
    cases hfield.symm.trans hheader
    refine ⟨?_, fun _ _ _ => trivial⟩
    intro count first hcount
    have hone : u16 (shortWalks.members.forward 8) = .ok (1, shortWalks.members.forward 10) := by
      rfl
    cases hone.symm.trans hcount
    intro name length body hattribute
    have hdeprecated : attributeHeader shortWalks.pool (shortWalks.members.forward 10) =
        .ok (("Deprecated", 0), shortWalks.members.forward 16) := by
      decide +kernel
    cases hdeprecated.symm.trans hattribute
    intro next after hstep
    obtain ⟨-, rfl⟩ := work_pure_eq_ok.mp hstep
    exact ⟨rfl, trivial⟩
  case methods =>
    intro count first hcount
    have hnone : u16 shortWalks.between = .ok (0, ⟨98, [0x00, 0x00]⟩) := rfl
    cases hnone.symm.trans hcount
    trivial

/-- The walks over the members of a class with a deprecated field agree. -/
theorem walks_agree_deprecatedClass :
    (∃ walks : Walks, walks.Of (deprecatedBytes []) (deprecatedClass []) ∧
      walks.last = ⟨98, [0x00, 0x00]⟩) ∧
    shortWalks.Of (deprecatedBytes []) (deprecatedClass []) ∧ shortWalks.Exact ∧
    shortWalks.last = shortWalks.found := by
  obtain ⟨-, htaken, hagree⟩ := walks_agree
  have hread : Decode.cls (Cursor.start (deprecatedBytes [])) =
      .ok (deprecatedClass [], ⟨98, [0x00, 0x00]⟩) := by
    rfl
  exact ⟨htaken _ _ _ hread, of_shortWalks, exact_shortWalks,
    hagree shortWalks _ _ of_shortWalks exact_shortWalks⟩

/-- A method `g` without code. -/
def hiddenMethod : Method :=
  { access := MethodAccess.ofBits 1, name := "g", descriptor := "()V" }

/-- The count of methods, and a method, as the contents of an attribute that should have none. -/
def hiddenBytes : Bytes :=
  [0x00, 0x01, 0x00, 0x01, 0x00, 0x08, 0x00, 0x09, 0x00, 0x00]

/-- The walks over the members of the class whose attribute has these contents. -/
def hiddenWalks : Walks :=
  deprecatedWalks hiddenBytes ⟨108, [0x00, 0x00]⟩ ⟨96, hiddenBytes ++ [0x00, 0x00, 0x00, 0x00]⟩
    ⟨106, [0x00, 0x00, 0x00, 0x00]⟩

/-- **The two walks may differ.**  The first walk passes over the contents of the attribute, and
finds no methods behind them.  The second one does not, and finds a method in them. -/
theorem walks_differ :
    Decode.cls (Cursor.start (deprecatedBytes hiddenBytes)) =
      .ok (deprecatedClass [hiddenMethod], hiddenWalks.last) ∧
    hiddenWalks.Of (deprecatedBytes hiddenBytes) (deprecatedClass [hiddenMethod]) ∧
    hiddenWalks.last ≠ hiddenWalks.found := by
  refine ⟨?_, ⟨rfl, rfl, ?_, by decide +kernel, ?_⟩, by decide⟩
  · unfold Decode.cls Decode.method Decode.methodAttribute Decode.code
    decide +kernel
  · exact ⟨{ deprecatedClass [] with fields := [] }, none, ⟨110, []⟩, rfl, rfl, rfl⟩
  · unfold Decode.method Decode.methodAttribute Decode.code
    decide +kernel

end Decode

end Downlevel
