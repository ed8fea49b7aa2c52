import Mathlib.Data.List.TakeWhile
import Downlevel.Code.Layout
import Downlevel.Pool.Table
import Downlevel.Proofs.Emitting
import Downlevel.Proofs.FrameShape
import Downlevel.Proofs.Pool.Growth
import Downlevel.Proofs.Reading
import Downlevel.Proofs.Text

/-!
# How class files list frames

A class file lists the frames of code in the order of the offsets that they stand at.  Each entry says
how far it is behind the one before, and how the local variables differ from those there: they are the
same, or there are fewer or more of them, or they are listed anew.  One type is listed for each value,
so a long or double stands for two slots, and slots that are not listed are unusable.

* `StackMap.read` — reading such a list;
* `StackMap.fill_compactLocals` — the local variables of a well-formed frame are found again from what
  is listed of them;
* `StackMap.reads_vtype`, `StackMap.reads_entry` — types and entries, as they are listed.
-/

namespace Downlevel

namespace StackMap

open Parse

/-- The class at an index of the pool, however it is spelled. -/
def className (table : Pool.Table) (index : UInt16) : Except Error ClassName := do
  match ← table.get index with
  | .cls name => table.utf8 name
  | _ => fail (.read (.unexpectedEntry "class" index))

/-- Reads a type.  An object whose constructor was not called yet is told by the offset of the
instruction that created it. -/
def vtype (table : Pool.Table) : Parse VType := do
  match ← u8 with
  | 0 => return .top
  | 1 => return .int
  | 2 => return .float
  | 3 => return .double
  | 4 => return .long
  | 5 => return .null
  | 6 => return .uninitializedThis
  | 7 => do
      let index ← u16
      return .object (← className table index)
  | 8 => return .uninitialized (← u16).toNat
  | tag => refuse (.unknownTag tag)

/-- What an entry says: how far it is behind the one before, and the types of local variables and of
values on the stack, the lowest first. -/
structure Entry where
  delta : Nat
  locals : List VType
  stack : List VType

/-- Reads an entry behind one with the given local variables. -/
def entry (table : Pool.Table) (locals : List VType) : Parse Entry := do
  let tag ← u8
  if tag < 64 then return ⟨tag.toNat, locals, []⟩
  else if tag < 128 then return ⟨tag.toNat - 64, locals, [← vtype table]⟩
  else if tag < 247 then refuse (.unknownTag tag)
  else
    let delta ← u16
    if tag = 247 then return ⟨delta.toNat, locals, [← vtype table]⟩
    else if tag < 251 then
      return ⟨delta.toNat, locals.take (locals.length - (251 - tag.toNat)), []⟩
    else if tag < 255 then
      return ⟨delta.toNat, locals ++ (← times (tag.toNat - 251) (vtype table)), []⟩
    else
      let locals ← listOf (vtype table)
      let stack ← listOf (vtype table)
      return ⟨delta.toNat, locals, stack⟩

/-- The slots of local variables, of which there are `size`, from what is listed of them. -/
def fill (size : Nat) (types : List VType) : List VType :=
  let slots := types.flatMap VType.slots
  slots ++ List.replicate (size - slots.length) .top

/-- Where an entry stands, behind the one before, if there is one. -/
def place (delta : Nat) : Option Nat → Nat
  | none => delta
  | some before => before + delta + 1

/-- Reads entries behind one at an offset with the given local variables.  `size` is how many slots
there are for local variables. -/
def entries (table : Pool.Table) (size : Nat) :
    Nat → Option Nat → List VType → Parse (List (Nat × Frame))
  | 0, _, _ => pure []
  | n + 1, before, locals => do
      let found ← entry table locals
      let offset := place found.delta before
      let others ← entries table size n (some offset) found.locals
      return (offset, ⟨fill size found.locals, found.stack.reverse⟩) :: others

/-- Reads a list of frames with their offsets.  `locals` are the local variables at the start of the
method. -/
def read (table : Pool.Table) (size : Nat) (locals : List VType) : Parse (List (Nat × Frame)) := do
  let count ← u16
  entries table size count.toNat none locals

end StackMap

/-- A type as class files list it: an object whose constructor was not called yet is told by the
offset of the instruction that created it, in place of the index. -/
def VType.placed (layout : Layout) : VType → VType
  | .uninitialized index => .uninitialized (layout.offsetOf index)
  | type => type

/-- A frame as class files list it. -/
def Frame.placed (layout : Layout) (frame : Frame) : Frame :=
  ⟨frame.locals.map (VType.placed layout), frame.stack.map (VType.placed layout)⟩

namespace StackMap

section Locals

variable (layout : Layout)

/-- A type takes as many slots where class files list it. -/
theorem isWide_placed (type : VType) : (type.placed layout).isWide = type.isWide := by
  cases type <;> rfl

/-- Slots are listed as the types that they have. -/
theorem slots_placed (type : VType) :
    (type.placed layout).slots = type.slots.map (VType.placed layout) := by
  unfold VType.slots
  rw [isWide_placed]
  split <;> rfl

/-- The slots of listed types are the listed slots of the types. -/
theorem flatMap_slots_placed (types : List VType) :
    (types.map (VType.placed layout)).flatMap VType.slots =
      (types.flatMap VType.slots).map (VType.placed layout) := by
  rw [List.flatMap_map, List.map_flatMap]
  exact congrArg (types.flatMap ·) (funext (slots_placed layout))

/-- Without the upper half of each long and double, slots that go together are still known. -/
theorem flatMap_slots_dropUpperHalves {locals : List VType} (h : Frame.Paired locals) :
    (Frame.dropUpperHalves locals).flatMap VType.slots = locals := by
  have hnarrow {type : VType} (hflag : type.isWide = false) : type.slots = [type] := by
    simp [VType.slots, hflag]
  fun_induction Frame.dropUpperHalves locals with
  | case1 => rfl
  | case2 type =>
      have hflag : type.isWide = false := by
        by_contra hwide
        cases h.1 (Bool.not_eq_false _ ▸ hwide)
      rw [List.flatMap_singleton, hnarrow hflag]
  | case3 type next rest hwide ih =>
      cases h.1 hwide
      have hslots : type.slots = [type, .top] := if_pos hwide
      rw [List.flatMap_cons, hslots, ih h.2.2]
      rfl
  | case4 type next rest hflag ih =>
      rw [List.flatMap_cons, hnarrow (Bool.not_eq_true _ ▸ hflag), ih h.2]
      rfl

/-- What is not listed at the end is unusable. -/
theorem dropUpperHalves_eq (locals : List VType) : ∃ n, Frame.dropUpperHalves locals =
    Frame.compactLocals locals ++ List.replicate n .top := by
  let isTop : VType → Bool := fun type => decide (type = .top)
  let reversed := (Frame.dropUpperHalves locals).reverse
  have htops : reversed.takeWhile isTop =
      List.replicate (reversed.takeWhile isTop).length .top := by
    refine List.eq_replicate_of_mem fun type hmem => ?_
    simpa [isTop] using List.mem_takeWhile_imp hmem
  refine ⟨(reversed.takeWhile isTop).length, ?_⟩
  calc Frame.dropUpperHalves locals
      = (reversed.takeWhile isTop ++ reversed.dropWhile isTop).reverse := by
        rw [List.takeWhile_append_dropWhile, List.reverse_reverse]
    _ = (reversed.dropWhile isTop).reverse ++ (reversed.takeWhile isTop).reverse :=
        List.reverse_append
    _ = Frame.compactLocals locals ++ _ := by
        rw [htops, List.reverse_replicate, List.length_replicate]
        rfl

/-- **The local variables of a well-formed frame are found again** from what is listed of them. -/
theorem fill_compactLocals {locals : List VType} (h : Frame.Paired locals) {size : Nat}
    (hsize : locals.length = size) :
    fill size ((Frame.compactLocals locals).map (VType.placed layout)) =
      locals.map (VType.placed layout) := by
  obtain ⟨n, hn⟩ := dropUpperHalves_eq locals
  have htops : ∀ n, (List.replicate n VType.top).flatMap VType.slots = List.replicate n .top := by
    intro n
    induction n with
    | zero => rfl
    | succ n ih => exact congrArg (VType.top :: ·) ih
  have hslots := flatMap_slots_dropUpperHalves h
  rw [hn, List.flatMap_append, htops] at hslots
  have hlength : size - ((Frame.compactLocals locals).flatMap VType.slots).length = n := by
    have hall := congrArg List.length hslots
    rw [List.length_append, List.length_replicate, hsize] at hall
    omega
  have hmap := congrArg (List.map (VType.placed layout)) hslots
  rw [List.map_append, List.map_replicate] at hmap
  simp only [fill, flatMap_slots_placed, List.length_map, hlength]
  exact hmap

end Locals

section Entries

open Parse Pool

variable {context : Encode.Context} {pool pool' : Builder} {table : Table} {bytes : Bytes}

/-- A table that covers a pool covers what it was before. -/
theorem covers_of_within (htable : table.Covers pool') (h : pool.Within pool') : table.Covers pool :=
  fun item index hindex => htable item index (h item index hindex)

/-- A text is found again. -/
theorem utf8_of_covers {text : String} {index : UInt16}
    (h : PoolM.utf8 text pool = .ok (index, pool')) (htable : table.Covers pool') :
    table.utf8 index = .ok text := by
  have hutf8 := (htable _ _ (PoolM.index_put h)).2
  simp [Table.utf8, Table.javaString, hutf8, bind, Except.bind, pure, Except.pure, orFail]

/-- A class is found again. -/
theorem className_of_cls {name : ClassName} {index : UInt16}
    (h : PoolM.cls name pool = .ok (index, pool')) (htable : table.Covers pool') :
    className table index = .ok name := by
  obtain ⟨text, between, htext, hcls⟩ := work_bind_eq_ok.mp h
  have hname := (htable _ _ (PoolM.index_put hcls)).2
  have hutf8 := utf8_of_covers htext (covers_of_within htable (PoolM.Enlarges.within hcls))
  simp [className, hname, hutf8, bind, Except.bind]

/-- **A type is read as it is listed.** -/
theorem reads_vtype {type : VType} (hsmall : ∀ index, context.layout.offsetOf index < 65536)
    (h : context.vtype type pool = .ok (bytes, pool')) (htable : table.Covers pool') :
    Reads (vtype table) bytes (type.placed context.layout) := by
  cases type with
  | object name =>
      obtain ⟨index, between, hcls, hrest⟩ := work_bind_eq_ok.mp h
      obtain ⟨rfl, rfl⟩ := work_pure_eq_ok.mp hrest
      have hname := className_of_cls hcls htable
      exact (reads_u8 7).bind ((reads_u16 index).finish (Reads.look hname (reads_pure _)))
  | uninitialized index =>
      obtain ⟨rfl, rfl⟩ := work_pure_eq_ok.mp h
      have hoffset := (reads_u16 (context.layout.offsetOf index).toUInt16).map
        fun offset => VType.uninitialized offset.toNat
      rw [UInt16.toNat_ofNat_of_lt' (hsmall index)] at hoffset
      exact (reads_u8 8).bind hoffset
  | _ =>
      obtain ⟨rfl, rfl⟩ := work_pure_eq_ok.mp h
      exact (reads_u8 _).finish (reads_pure _)

/-- Types are read as they are listed. -/
theorem reads_types {what : String} {types : List VType}
    (hsmall : ∀ index, context.layout.offsetOf index < 65536)
    (h : Encode.listOf what types context.vtype pool = .ok (bytes, pool'))
    (htable : table.Covers pool') :
    Reads (listOf (vtype table)) bytes (types.map (VType.placed context.layout)) := by
  obtain ⟨hcount, parts, hparts, rfl⟩ := Encode.listOf_eq_ok.mp h
  have hall := (work_mapM_quiet (fun pool => table.Covers pool)
    (fun type part => Reads (vtype table) part (type.placed context.layout))
    (fun type _ _ _ _ hrun hcovers => ⟨covers_of_within hcovers (PoolM.Enlarges.within hrun),
      reads_vtype hsmall hrun hcovers⟩) hparts htable).2
  rw [← List.length_map (VType.placed context.layout)] at hcount ⊢
  exact reads_listOf (List.forall₂_map_right_iff.mpr hall.flip) hcount

/-- **An entry is read as it is listed**, whatever local variables there were before. -/
theorem reads_entry {delta : Nat} (hdelta : delta < 65536) {frame : Frame}
    (hsmall : ∀ index, context.layout.offsetOf index < 65536)
    (h : context.fullFrame delta frame pool = .ok (bytes, pool')) (htable : table.Covers pool')
    (before : List VType) :
    Reads (entry table before) bytes
      ⟨delta, (Frame.compactLocals frame.locals).map (VType.placed context.layout),
        frame.stack.reverse.map (VType.placed context.layout)⟩ := by
  obtain ⟨locals, between, hlocals, h⟩ := work_bind_eq_ok.mp h
  obtain ⟨stack, _, hstack, h⟩ := work_bind_eq_ok.mp h
  obtain ⟨rfl, rfl⟩ := work_pure_eq_ok.mp h
  have hbetween := covers_of_within htable (PoolM.Enlarges.within hstack)
  have hbytes : 255 :: Bytes.ofU16 delta.toUInt16 ++ locals ++ stack =
      [255] ++ (Bytes.ofU16 delta.toUInt16 ++ (locals ++ stack)) := by simp
  rw [hbytes]
  refine (reads_u8 255).bind ?_
  rw [if_neg (by decide), if_neg (by decide), if_neg (by decide)]
  refine (reads_u16 delta.toUInt16).bind ?_
  rw [if_neg (by decide), if_neg (by decide), if_neg (by decide)]
  refine (reads_types hsmall hlocals hbetween).bind ?_
  refine (reads_types hsmall hstack htable).finish ?_
  rw [UInt16.toNat_ofNat_of_lt' hdelta]
  exact reads_pure _

end Entries

end StackMap

end Downlevel
