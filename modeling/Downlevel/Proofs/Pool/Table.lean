import Downlevel.Decode.Class
import Downlevel.Encode.Class
import Downlevel.Proofs.Pool.Builder
import Downlevel.Proofs.Reading
import Downlevel.Proofs.Text

/-!
# The finished pool

The bytes of a pool are read as the table that its entries make up.  Wide entries leave the place
behind them empty on both sides, so every entry stands at the index that was given out for it.
Together with the version in front, this is how class files start.
-/

namespace Downlevel

namespace Pool

open Parse

/-- The bytes of an entry behind its tag are read as that entry. -/
theorem Entry.reads_body {item : Entry} {bytes : Bytes} (h : item.write = .ok bytes) :
    ∃ body, bytes = item.tag :: body ∧ Reads (readBody item.tag) body item := by
  cases item with
  | utf8 text =>
      obtain ⟨count, hcount, hbytes⟩ := bind_eq_ok.mp h
      obtain rfl := pure_eq_ok.mp hbytes
      unfold Encode.count16 at hcount
      split at hcount
      case isFalse => cases hcount
      case isTrue hsmall =>
        cases hcount
        refine ⟨_, rfl, (reads_u16 _).bind ?_⟩
        rw [UInt16.toNat_ofNat_of_lt' hsmall]
        refine (reads_take text.encode).finish ?_
        rw [JavaString.decode_encode]
        exact reads_pure _
  | int value => cases h; exact ⟨_, rfl, (reads_i32 value).map Entry.int⟩
  | float bits => cases h; exact ⟨_, rfl, (reads_u32 bits).map Entry.float⟩
  | long value => cases h; exact ⟨_, rfl, (reads_i64 value).map Entry.long⟩
  | double bits =>
      cases h
      exact ⟨_, rfl, (reads_i64 bits.toInt64).map fun value => Entry.double value.toUInt64⟩
  | cls name => cases h; exact ⟨_, rfl, (reads_u16 name).map Entry.cls⟩
  | string text => cases h; exact ⟨_, rfl, (reads_u16 text).map Entry.string⟩
  | field owner member =>
      cases h; exact ⟨_, rfl, (reads_u16 owner).bind ((reads_u16 member).map (Entry.field owner))⟩
  | method owner member =>
      cases h; exact ⟨_, rfl, (reads_u16 owner).bind ((reads_u16 member).map (Entry.method owner))⟩
  | interfaceMethod owner member =>
      cases h
      exact ⟨_, rfl, (reads_u16 owner).bind ((reads_u16 member).map (Entry.interfaceMethod owner))⟩
  | nameAndType name descriptor =>
      cases h
      exact ⟨_, rfl, (reads_u16 name).bind ((reads_u16 descriptor).map (Entry.nameAndType name))⟩
  | handle kind target =>
      cases h; exact ⟨_, rfl, (reads_u8 kind).bind ((reads_u16 target).map (Entry.handle kind))⟩
  | methodType descriptor => cases h; exact ⟨_, rfl, (reads_u16 descriptor).map Entry.methodType⟩
  | dynamic bootstrap member =>
      cases h
      exact ⟨_, rfl, (reads_u16 bootstrap).bind ((reads_u16 member).map (Entry.dynamic bootstrap))⟩
  | invokeDynamic bootstrap member =>
      cases h
      exact ⟨_, rfl, (reads_u16 bootstrap).bind ((reads_u16 member).map (Entry.invokeDynamic bootstrap))⟩
  | module name => cases h; exact ⟨_, rfl, (reads_u16 name).map Entry.module⟩
  | package name => cases h; exact ⟨_, rfl, (reads_u16 name).map Entry.package⟩

/-- The bytes of an entry are read as that entry, whatever its index. -/
theorem Entry.reads_write {item : Entry} {bytes : Bytes} (h : item.write = .ok bytes)
    (index : Nat) : Reads (Entry.read index) bytes item := by
  obtain ⟨body, rfl, hbody⟩ := Entry.reads_body h
  exact (reads_u8 item.tag).bind (hbody.within _)

namespace Table

/-- Reading an entry that takes one index and others behind it. -/
theorem readEntries_narrow (count : UInt16) (n : Nat) (entries : Array (Option Entry))
    {item : Entry} (hitem : item.isWide = false) {bytes rest : Bytes}
    (hread : Reads (Entry.read entries.size) bytes item) {result : Array (Option Entry)}
    (hrest : Reads (readEntries count n (entries.push (some item))) rest result) :
    Reads (readEntries count (n + 1) entries) (bytes ++ rest) result := by
  cases n with
  | zero =>
      unfold readEntries
      refine hread.bind ?_
      simpa [hitem, readEntries] using hrest
  | succ n =>
      rw [readEntries]
      refine hread.bind ?_
      simpa [hitem] using hrest

/-- The bytes of entries are read as the places they take, behind those that are there. -/
theorem reads_readEntries (count : UInt16) {items : List Entry} {parts : List Bytes}
    (h : List.Forall₂ (fun item part => item.write = .ok part) items parts)
    (entries : Array (Option Entry)) :
    Reads (readEntries count (items.flatMap Entry.slots).length entries) parts.flatten
      (entries ++ (items.flatMap Entry.slots).toArray) := by
  induction h generalizing entries with
  | nil => simpa [readEntries] using reads_pure entries
  | @cons item part items parts hitem _ ih =>
      have hread := Entry.reads_write hitem entries.size
      cases hwide : item.isWide with
      | false =>
          have hrest := ih (entries.push (some item))
          have h := readEntries_narrow count _ entries hwide hread hrest
          have hslots : item.slots = [some item] := by simp [Entry.slots, hwide]
          simpa [hslots, ← Array.append_assoc] using h
      | true =>
          have hrest := ih ((entries.push (some item)).push none)
          have hslots : item.slots = [some item, none] := by simp [Entry.slots, hwide]
          simp only [List.flatMap_cons, hslots, List.cons_append, List.nil_append, List.length_cons,
            List.flatten_cons]
          rw [readEntries]
          refine hread.bind ?_
          simpa [hwide] using hrest

/-- **The bytes of a pool are read as its table**, if the next free index is behind its entries. -/
theorem reads_read {pool : Builder} (hslots : pool.count = pool.slots.length)
    (hsmall : pool.count < 65536) {bytes : Bytes} (h : pool.write = .ok bytes) :
    Reads Table.read bytes ⟨pool.slots.toArray⟩ := by
  obtain ⟨parts, hparts, hbytes⟩ := bind_eq_ok.mp h
  obtain rfl := pure_eq_ok.mp hbytes
  have hcount : pool.count.toUInt16.toNat = pool.count := UInt16.toNat_ofNat_of_lt' hsmall
  have hpos : pool.count = (pool.entries.toList.flatMap Entry.slots).length + 1 := by
    rw [hslots, Builder.slots, List.length_cons]
  have hne : pool.count.toUInt16 ≠ 0 := by
    intro hzero
    rw [hzero] at hcount
    simp at hcount
    omega
  refine (reads_u16 _).bind ?_
  rw [if_neg hne, hcount, hpos, Nat.add_sub_cancel]
  have hentries := reads_readEntries pool.count.toUInt16 (mapM_eq_ok_forall₂ hparts) #[none]
  simpa [Builder.slots, hpos] using hentries.map Table.mk

end Table

end Pool

open Parse in
/-- **The start of a class file is read as its version and its pool.** -/
theorem Decode.reads_header {version : Version} (hversion : version.major ≤ Version.newestMajor)
    {pool : Pool.Builder} (hplaced : pool.Placed) {front : Bytes} (h : pool.write = .ok front) :
    Reads header (Bytes.ofU32 0xcafebabe ++ Bytes.ofU16 version.minor ++ Bytes.ofU16 version.major ++
      front) (version, ⟨pool.slots.toArray⟩) := by
  have hfound : Reads Decode.version (Bytes.ofU32 0xcafebabe ++ Bytes.ofU16 version.minor ++
      Bytes.ofU16 version.major) version := by
    rw [List.append_assoc]
    exact (reads_u32 _).bind ((reads_u16 _).bind ((reads_u16 _).finish (reads_pure _)))
  refine hfound.bind ?_
  rw [if_neg (UInt16.not_lt.mpr hversion)]
  exact (Pool.Table.reads_read hplaced.count hplaced.small h).map (Prod.mk version)

end Downlevel
