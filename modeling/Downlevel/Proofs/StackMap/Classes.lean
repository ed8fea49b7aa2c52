import Downlevel.Proofs.RoundTrip.Member
import Downlevel.Proofs.StackMap.Written

/-!
# The frames of class files

To find the frames of a class file one has to pass over all that stands around them, by lengths and
counts only.  Behind the pool and the fields there are the methods; one attribute of a method has its
code, and one attribute of the code has its frames.  Which attribute it is is told by its name, so
nothing that is kept as it was read must have that name.

What is found so in a class that was written are the frames of its methods, as their analysis found
them.

* `StackMap.ofBytes` — the frames of a class file, method by method;
* `Encode.TitledAll` — the names that attributes are written with;
* `Method.Framed` — what is listed for a method;
* `ClassFile.toBytes_frames` — what is listed in a class file that is written.
-/

namespace Downlevel

namespace StackMap

open Parse

/-- Reads what the attributes with a name list, and passes over the others by their lengths. -/
def attributes {α : Type} (table : Pool.Table) (wanted : String) (items : Parse (List α)) :
    Parse (List α) :=
  Decode.attributes table (fun name length found =>
    if name = wanted then do return found ++ (← items)
    else do
      skip length
      return found) []

/-- Reads the frames of code.  `start` are the local variables at the start of the method. -/
def code (table : Pool.Table) (start : List VType) : Parse (List (Nat × Frame)) := do
  skip 2
  let size ← u16
  let length ← u32
  skip length.toNat
  let handlers ← u16
  skip (8 * handlers.toNat)
  attributes table "StackMapTable" (read table size.toNat start)

/-- Reads the frames of a method.  `start` says what the local variables are at the start of a method
with some access flags, name and descriptor. -/
def method (table : Pool.Table) (start : MethodAccess → MethodName → MethodDescriptor → List VType) :
    Parse (List (Nat × Frame)) := do
  let access := MethodAccess.ofBits (← u16)
  let name ← table.utf8 (← u16)
  let descriptor ← table.utf8 (← u16)
  attributes table "Code" (code table (start access name descriptor))

/-- Reads the frames of the methods of a class. -/
def methods (start : MethodAccess → MethodName → MethodDescriptor → List VType) :
    Parse (List (List (Nat × Frame))) := do
  let (_, table) ← Decode.header
  skip 6
  let interfaces ← u16
  skip (2 * interfaces.toNat)
  Decode.skipMembers
  listOf (method table start)

/-- The frames of the methods of a class file. -/
def ofBytes (start : MethodAccess → MethodName → MethodDescriptor → List VType) (bytes : Bytes) :
    Except Error (List (List (Nat × Frame))) :=
  (methods start (Cursor.start bytes)).map Prod.fst

end StackMap

/-- No attribute that is kept as it was read has the name of one with the code of a method, or with the
frames of code. -/
structure Method.NamesApart (method : Method) : Prop where
  code : "Code" ∉ method.attributes.map RawAttribute.name
  frames : ∀ code, method.code = some code → "StackMapTable" ∉ code.attributes.map RawAttribute.name

/-- **What is listed for a method** are the frames that the analysis of its code finds, or none if it has
no code.  `body` are the bytes of its instructions, and the analysis starts in the given state. -/
def Method.Framed {σ : Type} (supers : SuperClasses σ) (cls : ClassName) (method : Method) (state : σ)
    (frames : List (Nat × Frame)) : Prop :=
  match method.code with
  | none => frames = []
  | some code => ∃ locals found state' layout body, Encode.maxLocals method code = .ok locals ∧
      Frame.analyze supers cls method code locals state = (.ok found, state') ∧
      Encode.Neutralised code layout body ∧
      StackMap.Tells code layout body locals.toNat found.frames frames

namespace Encode

open Parse Pool PoolM

/-! ## The names of attributes -/

section Titles

/-- Work that writes an attribute, under a name that is read with any table that covers the pool
then. -/
class Titled (work : PoolM Bytes) (name : outParam String) : Prop where
  run : ∀ {pool bytes pool'}, work pool = .ok (bytes, pool') → ∀ constants : Constants,
    constants.table.Covers pool' → ∃ contents, IsAttribute constants name contents bytes

/-- Work that writes an attribute under a name, if it is there. -/
class TitledIf (attribute' : Option (PoolM Bytes)) (name : outParam String) : Prop where
  run : ∀ work, attribute' = some work → Titled work name

/-- Attributes that are written under some names. -/
class TitledAll (attributes' : Attributes) (names : outParam (List String)) : Prop where
  run : ∀ work, some work ∈ attributes' → ∃ name ∈ names, Titled work name

variable {α : Type} {pool pool' : Builder} {bytes : Bytes}

/-- An attribute of a length that was known is one if its contents have that length. -/
theorem titled_fixed {name : String} {length : Nat} {contents : PoolM Bytes}
    [Enlarges Builder.Leads contents]
    (h : ∀ {pool bytes pool'}, contents pool = .ok (bytes, pool') → bytes.length = length) :
    Titled (fixed name length contents) name where
  run {pool bytes pool'} hrun constants hcovers := by
    obtain ⟨_, between, hname, hrun⟩ := work_bind_eq_ok.mp hrun
    obtain ⟨index, hindex, rfl⟩ := indexed_eq_ok.mp hname
    obtain ⟨size, _, hsize, hrun⟩ := work_bind_eq_ok.mp hrun
    obtain ⟨hcount, rfl⟩ := work_lift_eq_ok.mp hsize
    obtain ⟨hsmall, rfl⟩ := count32_eq_ok.mp hcount
    obtain ⟨body, _, hbody, hpure⟩ := work_bind_eq_ok.mp hrun
    obtain ⟨rfl, rfl⟩ := work_pure_eq_ok.mp hpure
    have htext := StackMap.utf8_of_covers hindex
      (StackMap.covers_of_within hcovers (Enlarges.within hbody))
    obtain rfl := h hbody
    exact ⟨body, hsmall, index, htext, List.append_assoc _ _ _⟩

instance (name : String) (contents : PoolM Bytes) : Titled (sized name contents) name where
  run hrun constants hcovers := by
    obtain ⟨body, _, index, -, hindex, hsmall, rfl⟩ := sized_run hrun
    exact ⟨body, hsmall, index, StackMap.utf8_of_covers hindex hcovers, List.append_assoc _ _ _⟩

instance (name : String) : Titled (marker name) name :=
  titled_fixed fun h => congrArg List.length (work_pure_eq_ok.mp h).1.symm

instance (name : String) (work : PoolM UInt16) [Enlarges Builder.Leads work] :
    Titled (single name work) name :=
  titled_fixed fun h => by
    obtain ⟨index, -, rfl⟩ := indexed_eq_ok.mp h
    exact Bytes.length_ofU16 index

/-- Each class of a list takes two bytes. -/
theorem length_classes {classes : List ClassName} {parts : List Bytes}
    (h : classes.mapM (fun name => indexed (PoolM.cls name)) pool = .ok (parts, pool')) :
    parts.flatten.length = 2 * classes.length := by
  refine length_flatten_of_forall₂ ((work_mapM_forall₂ h).imp fun _ part hstep => ?_).flip
  obtain ⟨_, _, hstep⟩ := hstep
  obtain ⟨index, -, rfl⟩ := indexed_eq_ok.mp hstep
  exact Bytes.length_ofU16 index

instance (name : String) (classes : List ClassName) : Titled (classList name classes) name :=
  titled_fixed fun h => by
    obtain ⟨-, parts, hparts, rfl⟩ := listOf_eq_ok.mp h
    rw [List.length_append, Bytes.length_ofU16, length_classes hparts]

instance (kept : RawAttribute) : Titled (raw kept) kept.name where
  run hrun constants hcovers := by
    obtain ⟨_, _, hname, hrun⟩ := work_bind_eq_ok.mp hrun
    obtain ⟨index, hindex, rfl⟩ := indexed_eq_ok.mp hname
    obtain ⟨size, _, hsize, hrun⟩ := work_bind_eq_ok.mp hrun
    obtain ⟨hcount, rfl⟩ := work_lift_eq_ok.mp hsize
    obtain ⟨hsmall, rfl⟩ := count32_eq_ok.mp hcount
    obtain ⟨rfl, rfl⟩ := work_pure_eq_ok.mp hrun
    exact ⟨kept.bytes, hsmall, index, StackMap.utf8_of_covers hindex hcovers,
      List.append_assoc _ _ _⟩

instance (condition : Bool) (work : PoolM Bytes) (name : String) [h : Titled work name] :
    TitledIf (given condition work) name where
  run other hother := by
    unfold given at hother
    split at hother
    · exact Option.some.inj hother ▸ h
    · cases hother

instance (value : Option α) (work : α → PoolM Bytes) (name : String)
    [h : ∀ value, Titled (work value) name] : TitledIf (value.map work) name where
  run other hother := by
    obtain ⟨value, -, rfl⟩ := Option.map_eq_some_iff.mp hother
    exact h value

instance : TitledAll [] [] where
  run _ h := by cases h

instance (others : Attributes) (names : List String) [TitledAll others names] :
    TitledAll (none :: others) names where
  run work h := by
    rcases List.mem_cons.mp h with hnone | hothers
    · cases hnone
    · exact TitledAll.run work hothers

instance (first : Option (PoolM Bytes)) (others : Attributes) (name : String) (names : List String)
    [TitledIf first name] [TitledAll others names] : TitledAll (first :: others) (name :: names) where
  run work h := by
    rcases List.mem_cons.mp h with hfirst | hothers
    · exact ⟨name, List.mem_cons_self, TitledIf.run work hfirst.symm⟩
    · obtain ⟨other, hmem, htitled⟩ := TitledAll.run work hothers
      exact ⟨other, List.mem_cons_of_mem _ hmem, htitled⟩

instance (first second : Attributes) (names names' : List String) [TitledAll first names]
    [TitledAll second names'] : TitledAll (first ++ second) (names ++ names') where
  run work h := by
    rcases List.mem_append.mp h with hfirst | hsecond
    · obtain ⟨name, hmem, htitled⟩ := TitledAll.run work hfirst
      exact ⟨name, List.mem_append_left _ hmem, htitled⟩
    · obtain ⟨name, hmem, htitled⟩ := TitledAll.run work hsecond
      exact ⟨name, List.mem_append_right _ hmem, htitled⟩

instance (kept : List RawAttribute) :
    TitledAll (kept.map fun one => some (raw one)) (kept.map RawAttribute.name) where
  run work h := by
    obtain ⟨one, hmem, hone⟩ := List.mem_map.mp h
    exact ⟨one.name, List.mem_map_of_mem hmem, Option.some.inj hone ▸ inferInstance⟩

instance (isDeprecated isSynthetic : Bool) :
    TitledAll (markers isDeprecated isSynthetic) ["Deprecated", "Synthetic"] := by
  unfold markers
  infer_instance

instance (text : Option Signature) : TitledIf (signature text) "Signature" := by
  unfold signature
  infer_instance

instance (all : Annots) : TitledAll (annotAttributes all) ["RuntimeVisibleAnnotations",
    "RuntimeInvisibleAnnotations", "RuntimeVisibleTypeAnnotations",
    "RuntimeInvisibleTypeAnnotations"] := by
  unfold annotAttributes
  infer_instance

instance (context : Context) : TitledAll (context.attributes false [])
    (["LineNumberTable", "LocalVariableTable", "LocalVariableTypeTable"] ++
      context.code.attributes.map RawAttribute.name) := by
  have hlines (lines : List (Label × UInt16)) :
      Titled (context.lineNumberTable lines) "LineNumberTable" := by
    unfold Context.lineNumberTable
    infer_instance
  have hlocals (name what : String) (locals : List LocalVariable)
      (type? : LocalVariable → Option String) :
      TitledIf (context.variableTable? name what locals type?) name := by
    unfold Context.variableTable?
    infer_instance
  exact inferInstanceAs (TitledAll ([none, _, _, _] ++ _) _)

instance (method : Method) : TitledAll (methodAttributes method)
    (["Exceptions", "Signature"] ++ ["RuntimeVisibleAnnotations", "RuntimeInvisibleAnnotations",
      "RuntimeVisibleTypeAnnotations", "RuntimeInvisibleTypeAnnotations"] ++
      ["RuntimeVisibleParameterAnnotations", "RuntimeInvisibleParameterAnnotations",
        "AnnotationDefault", "MethodParameters"] ++ method.attributes.map RawAttribute.name) := by
  unfold methodAttributes
  infer_instance

/-- What is written of attributes are attributes with their names. -/
theorem titled_present {attributes' : Attributes} {names : List String}
    [hnames : TitledAll attributes' names] [hgrows : EnlargesAll Builder.Leads attributes']
    {constants : Constants} {parts : List Bytes}
    (h : present attributes' pool = .ok (parts, pool')) (hcovers : constants.table.Covers pool') :
    constants.table.Covers pool ∧
      ∀ part ∈ parts, ∃ name ∈ names, ∃ contents, IsAttribute constants name contents part := by
  have hpresent : ∀ work ∈ attributes'.filterMap id, some work ∈ attributes' := fun work hmem => by
    obtain ⟨found, hfound, heq⟩ := List.mem_filterMap.mp hmem
    exact heq ▸ hfound
  obtain ⟨hbefore, hparts⟩ := work_mapM_quiet (fun pool => constants.table.Covers pool)
    (fun _ part => ∃ name ∈ names, ∃ contents, IsAttribute constants name contents part)
    (fun work hmem _ _ _ hrun hafter => by
      have hwithin := ((hgrows.run work (hpresent work hmem)).run hrun).within
      obtain ⟨name, hname, htitled⟩ := hnames.run work (hpresent work hmem)
      exact ⟨StackMap.covers_of_within hafter hwithin, name, hname,
        htitled.run hrun constants hafter⟩) h hcovers
  refine ⟨hbefore, fun part hpart => ?_⟩
  obtain ⟨_, -, hattribute⟩ := exists_left_of_forall₂ hparts hpart
  exact hattribute

end Titles

/-! ## Passing over attributes -/

section Passing

variable {α : Type} {constants : Constants} {wanted : String} {items : Parse (List α)}
  {found : List α}

/-- Reading what an attribute lists, if it has a name. -/
abbrev wantedStep (wanted : String) (items : Parse (List α)) :
    Constants → String → Nat → List α → Parse (List α) :=
  fun _ name length found =>
    if name = wanted then do return found ++ (← items)
    else do
      skip length
      return found

/-- Attributes with other names are passed over. -/
theorem steps_others {parts : List Bytes} {names : List String} (hnames : wanted ∉ names)
    (h : ∀ part ∈ parts, ∃ name ∈ names, ∃ contents, IsAttribute constants name contents part) :
    Steps (readAttribute (wantedStep wanted items) constants) parts found found := by
  refine steps_same fun part hpart => ?_
  obtain ⟨name, hname, contents, hattribute⟩ := h part hpart
  refine hattribute.reads ?_
  have hother : name ≠ wanted := fun heq => hnames (heq ▸ hname)
  show Reads (if name = wanted then _ else _) contents found
  rw [if_neg hother]
  exact (reads_skip contents).finish (reads_pure found)

/-- What the attribute with the name lists is read. -/
theorem reads_wanted {contents part : Bytes} (h : IsAttribute constants wanted contents part)
    (hitems : Reads items contents found) :
    Reads (readAttribute (wantedStep wanted items) constants []) part found := by
  refine h.reads ?_
  show Reads (if wanted = wanted then _ else _) contents found
  rw [if_pos rfl]
  exact hitems.map ([] ++ ·)

/-- Attributes with their number in front are read by steps. -/
theorem reads_attributes {parts : List Bytes} (hsmall : parts.length < 65536)
    (h : Steps (readAttribute (wantedStep wanted items) constants) parts [] found) :
    Reads (StackMap.attributes constants.table wanted items)
      (Bytes.ofU16 parts.length.toUInt16 ++ parts.flatten) found := by
  refine (reads_u16 _).bind ?_
  rw [UInt16.toNat_ofNat_of_lt' hsmall]
  exact reads_iterate h

end Passing

/-! ## Members -/

section Members

variable {pool pool' : Builder} {bytes : Bytes} {constants : Constants}

/-- A field is passed over by the lengths of its attributes. -/
theorem reads_skipField {one : Field} (h : field one pool = .ok (bytes, pool'))
    (hcovers : constants.table.Covers pool') : Reads (skipMember ()) bytes () := by
  obtain ⟨_, _, hname, h⟩ := work_bind_eq_ok.mp h
  obtain ⟨name, -, rfl⟩ := indexed_eq_ok.mp hname
  obtain ⟨_, _, hdescriptor, h⟩ := work_bind_eq_ok.mp h
  obtain ⟨descriptor, -, rfl⟩ := indexed_eq_ok.mp hdescriptor
  obtain ⟨parts, _, hparts, h⟩ := work_bind_eq_ok.mp h
  obtain ⟨all, _, hall, h⟩ := work_bind_eq_ok.mp h
  obtain ⟨hcounted, rfl⟩ := work_lift_eq_ok.mp hall
  obtain ⟨hsmall, rfl⟩ := counted_eq_ok.mp hcounted
  obtain ⟨rfl, rfl⟩ := work_pure_eq_ok.mp h
  have hskips := steps_same fun part hpart => by
    obtain ⟨_, _, _, hattribute⟩ := (titled_present hparts hcovers).2 part hpart
    exact hattribute.skips
  refine reads_skipMember _ _ _ ((reads_u16 _).bind ?_)
  rw [UInt16.toNat_ofNat_of_lt' hsmall]
  exact reads_iterate hskips

/-- Fields with their number in front are passed over. -/
theorem reads_skipFields {cls : ClassName} {fields : List Field} {parts : List Bytes}
    (hsmall : fields.length < 65536)
    (h : fields.mapM (fun one => (field one).within (.inField one.name cls)) pool =
      .ok (parts, pool')) (hcovers : constants.table.Covers pool') :
    Reads Decode.skipMembers (Bytes.ofU16 fields.length.toUInt16 ++ parts.flatten) () := by
  have hparts := (work_mapM_quiet (fun pool => constants.table.Covers pool)
    (fun _ part => Reads (skipMember ()) part ()) (fun one _ _ _ _ hrun hafter => by
      have hfield : field one _ = _ := within_eq_ok.mp hrun
      exact ⟨StackMap.covers_of_within hafter (Enlarges.within hfield),
        reads_skipField hfield hafter⟩) h hcovers).2
  rw [hparts.length_eq] at hsmall ⊢
  refine reads_skipMembers hsmall fun part hpart => ?_
  obtain ⟨_, -, hskips⟩ := exists_left_of_forall₂ hparts hpart
  exact hskips

end Members

/-! ## Code -/

section Written

variable {σ : Type} {supers : SuperClasses σ} {cls : ClassName} {method : Method} {code : Code}
  {pool pool' : Builder} {state state' : σ} {bytes : Bytes} {constants : Constants}

/-- The table of exceptions has entries of eight bytes behind their number. -/
theorem exceptionTable_run {context : Context}
    (h : context.exceptionTable pool = .ok (bytes, pool')) : ∃ entries : List Bytes,
      entries.length < 65536 ∧ entries.flatten.length = 8 * entries.length ∧
        bytes = Bytes.ofU16 entries.length.toUInt16 ++ entries.flatten := by
  obtain ⟨ranges, _, hranges, h⟩ := work_bind_eq_ok.mp h
  obtain ⟨count, _, hlift, h⟩ := work_bind_eq_ok.mp h
  obtain ⟨hcount, rfl⟩ := work_lift_eq_ok.mp hlift
  obtain ⟨hsmall, rfl⟩ := count16_eq_ok.mp hcount
  obtain ⟨rfl, rfl⟩ := work_pure_eq_ok.mp h
  have hentries : ∀ entry ∈ ranges.flatten, entry.length = 8 := by
    intro entry hentry
    obtain ⟨entries, hmem, hin⟩ := List.mem_flatten.mp hentry
    obtain ⟨range, -, _, _, hrange⟩ := exists_left_of_forall₂ (work_mapM_forall₂ hranges) hmem
    obtain ⟨start, _, -, hrange⟩ := work_bind_eq_ok.mp hrange
    obtain ⟨stop, _, -, hrange⟩ := work_bind_eq_ok.mp hrange
    obtain ⟨handler, _, -, hrange⟩ := work_bind_eq_ok.mp hrange
    split at hrange
    · obtain ⟨rfl, -⟩ := work_pure_eq_ok.mp hrange
      cases hin
    · obtain ⟨caught, _, -, hrange⟩ := work_bind_eq_ok.mp hrange
      obtain ⟨rfl, -⟩ := work_pure_eq_ok.mp hrange
      obtain ⟨part, -, rfl⟩ := List.mem_map.mp hin
      simp only [List.length_append, Bytes.length_ofU16]
  exact ⟨ranges.flatten, hsmall, length_flatten_of_forall₂ (List.forall₂_same.mpr hentries), rfl⟩

/-- What lists frames is read as them, whatever the local variables are at the start. -/
theorem steps_listed {size : Nat} {listed : List Bytes} {frames : List (Nat × Frame)}
    (h : StackMap.Lists pool' size listed frames) (hcovers : constants.table.Covers pool')
    (start : List VType) :
    Steps (readAttribute (wantedStep "StackMapTable" (StackMap.read constants.table size start))
      constants) listed [] frames := by
  obtain ⟨rfl, rfl⟩ | ⟨-, name, contents, hsmall, rfl, hread⟩ := h
  · exact .done []
  · obtain ⟨hname, hread⟩ := hread constants.table hcovers
    have hattribute := (⟨hsmall, name, hname, List.append_assoc _ _ _⟩ :
      IsAttribute constants "StackMapTable" contents _)
    exact .more (reads_wanted hattribute (hread start)) (.done _)

/-- **The frames of code are read from what is written of it.**  They are listed as the analysis of the
code found them. -/
theorem code_listed (hkept : "StackMapTable" ∉ code.attributes.map RawAttribute.name)
    (h : Encode.code supers true cls method code pool state = (.ok (bytes, pool'), state')) :
    ∃ locals found layout body frames, maxLocals method code = .ok locals ∧
      Frame.analyze supers cls method code locals state = (.ok found, state') ∧
      Neutralised code layout body ∧
      StackMap.Tells code layout body locals.toNat found.frames frames ∧
      ∀ constants : Constants, constants.table.Covers pool' → ∀ start,
        Reads (StackMap.code constants.table start) bytes frames := by
  obtain ⟨locals, found, placed, filled, layout, table, between, listed, others, frames, hlocals,
    hfound, hitems, hlayout, htable, ⟨_, hothers⟩, hfew, body, rfl, hneutral, hlists, htells⟩ :=
    code_frames h
  refine ⟨locals, found, layout, body, frames, hlocals, hfound, hneutral, htells,
    fun constants hcovers start => ?_⟩
  obtain ⟨entries, hentries, hlength, rfl⟩ := exceptionTable_run htable
  have hsteps := (steps_listed hlists hcovers start).append
    (steps_others (by simpa using hkept) (titled_present hothers hcovers).2)
  have hsize := (Layout.ofItems_starts hlayout).2.2.1
  simp only [List.append_assoc]
  refine (reads_skip (Bytes.ofU16 found.maxStack)).bind ?_
  refine (reads_u16 locals).bind ((reads_u32 _).bind ?_)
  rw [UInt32.toNat_ofNat_of_lt' (hsize.trans (by decide)), ← hneutral.length]
  refine (reads_skip body).bind ((reads_u16 _).bind ?_)
  rw [UInt16.toNat_ofNat_of_lt' hentries, ← hlength]
  refine (reads_skip entries.flatten).bind ?_
  exact reads_attributes hfew hsteps

/-- **The frames of a method are read from what is written of it.** -/
theorem method_listed (hnames : method.NamesApart)
    (h : Encode.method supers true cls method pool state = (.ok (bytes, pool'), state')) :
    ∃ frames, method.Framed supers cls state frames ∧
      ∀ constants : Constants, constants.table.Covers pool' → ∀ start,
        Reads (StackMap.method constants.table start) bytes frames := by
  obtain ⟨_, pool₁, _, pool₂, marks, pool₃, parts, pool₄, rest, _, hname, hdescriptor, hmarks, hcode,
    hrest, hall, rfl⟩ := method_run.mp h
  obtain ⟨nameIndex, hnamed, rfl⟩ := indexed_eq_ok.mp hname
  obtain ⟨descriptorIndex, hdescribed, rfl⟩ := indexed_eq_ok.mp hdescriptor
  obtain ⟨hsmall, rfl⟩ := counted_eq_ok.mp hall
  have hlisted : ∃ frames, method.Framed supers cls state frames ∧
      ∀ constants : Constants, constants.table.Covers pool₄ → ∀ start,
        Steps (readAttribute (wantedStep "Code" (StackMap.code constants.table start)) constants)
          parts [] frames := by
    have hcode := codeAttribute_run.mp hcode
    unfold Method.Framed
    cases hheld : method.code with
    | none =>
        rw [hheld] at hcode
        obtain ⟨rfl, -, -⟩ := hcode
        exact ⟨[], rfl, fun _ _ _ => .done []⟩
    | some code =>
        rw [hheld] at hcode
        obtain ⟨contents, between, part, hwritten, hsized, rfl⟩ := hcode
        obtain ⟨locals, found, layout, body, frames, hlocals, hfound, hneutral, htells, hreads⟩ :=
          code_listed (hnames.frames code hheld) hwritten
        refine ⟨frames, ⟨locals, found, state', layout, body, hlocals, hfound, hneutral, htells⟩,
          fun constants hcovers start => ?_⟩
        obtain ⟨_, _, index, hcontents, hindex, hlarge, rfl⟩ := sized_run hsized
        obtain ⟨rfl, rfl⟩ := work_pure_eq_ok.mp hcontents
        have hbetween := StackMap.covers_of_within hcovers (Enlarges.within hindex)
        have hattribute : IsAttribute constants "Code" contents _ :=
          ⟨hlarge, index, StackMap.utf8_of_covers hindex hcovers, List.append_assoc _ _ _⟩
        exact .more (reads_wanted hattribute (hreads constants hbetween start)) (.done _)
  obtain ⟨frames, hframed, hsteps⟩ := hlisted
  refine ⟨frames, hframed, fun constants hcovers start => ?_⟩
  obtain ⟨hcovers₄, hothers⟩ := titled_present hrest hcovers
  have hcovers₃ := StackMap.covers_of_within hcovers₄
    (codeAttribute_enlarges (R := Builder.Leads) hcode).within
  obtain ⟨hcovers₂, hfirst⟩ := titled_present hmarks hcovers₃
  have hcovers₁ := StackMap.covers_of_within hcovers₂ (Enlarges.within hdescriptor)
  have hall (locals : List VType) :=
    ((steps_others (by decide) hfirst).append (hsteps constants hcovers₄ locals)).append
      (steps_others (by simpa using hnames.code) hothers)
  simp only [List.append_assoc]
  refine (reads_u16 _).bind ((reads_u16 nameIndex).bind ?_)
  refine .look (StackMap.utf8_of_covers hnamed hcovers₁) ((reads_u16 descriptorIndex).bind ?_)
  refine .look (StackMap.utf8_of_covers hdescribed hcovers₂) ?_
  rw [← List.append_assoc marks]
  exact reads_attributes hsmall (hall _)

/-- The frames of methods are read from what is written of them, one behind the other.  Each analysis
starts in a state with a property, if writing a method keeps it. -/
theorem methods_listed {I : σ → Prop} {methods : List Method} {parts : List Bytes}
    (hnames : ∀ method ∈ methods, method.NamesApart)
    (hkeeps : ∀ method, Emit.Keeps I (Encode.method supers true cls method)) (hstate : I state)
    (h : methods.mapM (fun method => (Encode.method supers true cls method).within
      (.inMethod method.name method.descriptor cls)) pool state = (.ok (parts, pool'), state')) :
    ∃ frames, List.Forall₂ (fun method found => ∃ t, I t ∧ method.Framed supers cls t found) methods
        frames ∧
      ∀ constants : Constants, constants.table.Covers pool' → constants.table.Covers pool ∧
        ∀ start, List.Forall₂ (Reads (StackMap.method constants.table start)) parts frames := by
  induction methods generalizing pool state parts with
  | nil =>
      obtain ⟨rfl, rfl, -⟩ := emit_pure_eq_ok.mp h
      exact ⟨[], .nil, fun _ hcovers => ⟨hcovers, fun _ => .nil⟩⟩
  | cons method rest ih =>
      rw [List.mapM_cons] at h
      obtain ⟨part, between, t, hfirst, h⟩ := emit_bind_eq_ok.mp h
      obtain ⟨others, _, _, hothers, h⟩ := emit_bind_eq_ok.mp h
      obtain ⟨rfl, rfl, rfl⟩ := emit_pure_eq_ok.mp h
      have hfirst := emit_within_eq_ok.mp hfirst
      obtain ⟨hhere, hrest⟩ := List.forall_mem_cons.mp hnames
      obtain ⟨found, hframed, hread⟩ := method_listed hhere hfirst
      obtain ⟨frames, hall, hreads⟩ := ih hrest ((hkeeps method pool).run hstate hfirst).2 hothers
      refine ⟨found :: frames, .cons ⟨state, hstate, hframed⟩ hall, fun constants hcovers => ?_⟩
      obtain ⟨hbetween, hreads⟩ := hreads constants hcovers
      have hbefore := StackMap.covers_of_within hbetween
        (method_enlarges (R := Builder.Leads) hfirst).within
      exact ⟨hbefore, fun start => .cons (hread constants hbetween start) (hreads start)⟩

end Written

end Encode

section Classes

open Encode Parse Pool PoolM

variable {σ : Type} {supers : SuperClasses σ} {cls : ClassFile} {written : Bytes} {s s' : σ}

/-- **The frames of a class file that is written are those of its methods**, as the analysis of their
code found them, one method after the other. -/
theorem ClassFile.toBytes_frames {I : σ → Prop} (hversion : cls.version.hasFrames = true)
    (hnewest : cls.version.major ≤ Version.newestMajor)
    (hnames : ∀ method ∈ cls.methods, method.NamesApart)
    (hkeeps : ∀ method, Emit.Keeps I (Encode.method supers true cls.name method)) (hs : I s)
    (h : cls.toBytes supers true s = (.ok written, s')) :
    ∃ frames, (∀ start, StackMap.ofBytes start written = .ok frames) ∧
      List.Forall₂ (fun method found => ∃ t, I t ∧ method.Framed supers cls.name t found) cls.methods
        frames := by
  obtain ⟨rest, pool, front, hrest, hfront, rfl⟩ := ClassFile.toBytes_run.mp h
  rw [Bool.true_and, hversion] at hrest
  have hplaced := (behindPool_enlarges (R := Builder.Leads) hrest).placed Builder.placed_empty
  let constants : Constants := ⟨⟨pool.slots.toArray⟩, #[]⟩
  have hcovers : constants.table.Covers pool := hplaced.covers
  obtain ⟨_, pool₁, _, pool₂, interfaces, pool₃, fields, pool₄, methods, pool₅, others, pool₆,
    bootstraps, all, hname, hsuper, hinterfaces, hfields, hmethods, hothers, hbootstraps, -, rfl⟩ :=
    behindPool_run.mp hrest
  obtain ⟨name, -, rfl⟩ := indexed_eq_ok.mp hname
  obtain ⟨superClass, -, rfl⟩ := indexed_eq_ok.mp hsuper
  obtain ⟨hfewInterfaces, ⟨interfaceParts, hinterfaceParts, rfl⟩, -⟩ :=
    members_pool_eq_ok.mp hinterfaces
  obtain ⟨hfewFields, ⟨fieldParts, hfieldParts, rfl⟩, -⟩ := members_pool_eq_ok.mp hfields
  obtain ⟨hfewMethods, methodParts, hmethodParts, rfl⟩ := members_eq_ok.mp hmethods
  have hcovers₆ := StackMap.covers_of_within hcovers (Enlarges.within hbootstraps)
  have hcovers₅ := StackMap.covers_of_within hcovers₆ (Enlarges.within hothers)
  obtain ⟨frames, hframed, hreads⟩ := Encode.methods_listed hnames hkeeps hs hmethodParts
  obtain ⟨hcovers₄, hreads⟩ := hreads constants hcovers₅
  refine ⟨frames, fun start => ?_, hframed⟩
  have hfront : Reads (StackMap.methods start)
      (Bytes.ofU32 0xcafebabe ++ Bytes.ofU16 cls.version.minor ++ Bytes.ofU16 cls.version.major ++
        front ++ (Bytes.ofU16 cls.access.toBits ++ Bytes.ofU16 name ++ Bytes.ofU16 superClass ++
          (Bytes.ofU16 cls.interfaces.length.toUInt16 ++ (interfaceParts.flatten ++
            (Bytes.ofU16 cls.fields.length.toUInt16 ++ fieldParts.flatten ++
              (Bytes.ofU16 cls.methods.length.toUInt16 ++ methodParts.flatten)))))) frames := by
    refine (Decode.reads_header hnewest hplaced hfront).bind ?_
    refine (reads_skip (Bytes.ofU16 cls.access.toBits ++ Bytes.ofU16 name ++
      Bytes.ofU16 superClass)).bind ((reads_u16 _).bind ?_)
    rw [UInt16.toNat_ofNat_of_lt' hfewInterfaces, ← length_classes hinterfaceParts]
    refine (reads_skip interfaceParts.flatten).bind ?_
    refine (reads_skipFields hfewFields hfieldParts hcovers₄).bind ?_
    rw [hframed.length_eq] at hfewMethods ⊢
    exact reads_listOf (hreads start) hfewMethods
  have hrun := hfront 0 all
  simp only [List.append_assoc] at hrun
  unfold StackMap.ofBytes Cursor.start
  simp only [List.append_assoc, hrun]
  rfl

end Classes

end Downlevel
