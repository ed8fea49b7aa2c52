import Downlevel.Encode.Instruction
import Downlevel.Proofs.Layout

/-!
# Where instructions start

A layout tells for every instruction where it starts.  That is behind the bytes of all instructions
before it, whatever labels there are: the room that the parts of an instruction take is known before
the distances in them are.

* `HasAt` — a piece of bytes stands at an offset;
* `Layout.ofItems_starts` — the bytes of each instruction stand where it starts;
* `Encode.items_ne_nil` — no instruction is without bytes.
-/

namespace Downlevel

/-- A piece stands in bytes at an offset. -/
def HasAt (bytes : Bytes) (offset : Nat) (piece : Bytes) : Prop :=
  ∃ front rest, bytes = front ++ piece ++ rest ∧ front.length = offset

/-- An item of a list of pieces stands behind those before it. -/
theorem hasAt_flatten {chunks : List Bytes} {index : Nat} {chunk : Bytes}
    (h : chunks[index]? = some chunk) :
    HasAt chunks.flatten (chunks.take index).flatten.length chunk := by
  obtain ⟨hlt, hget⟩ := List.getElem?_eq_some_iff.mp h
  refine ⟨(chunks.take index).flatten, (chunks.drop (index + 1)).flatten, ?_, rfl⟩
  calc chunks.flatten = (chunks.take index ++ chunks.drop index).flatten := by
        rw [List.take_append_drop]
    _ = (chunks.take index).flatten ++ chunk ++ (chunks.drop (index + 1)).flatten := by
        rw [List.drop_eq_getElem_cons hlt, hget, List.flatten_append, List.flatten_cons,
          List.append_assoc]

/-- If no piece is empty, more pieces are longer. -/
theorem length_take_lt {chunks : List Bytes} (h : ∀ chunk ∈ chunks, chunk ≠ []) {i j : Nat}
    (hlt : i < j) (hle : j ≤ chunks.length) :
    (chunks.take i).flatten.length < (chunks.take j).flatten.length := by
  induction j with
  | zero => exact absurd hlt (Nat.not_lt_zero i)
  | succ j ih =>
      have hchunk : 0 < chunks[j].length := List.length_pos_iff.mpr (h _ (List.getElem_mem hle))
      rw [List.take_add_one, List.getElem?_eq_getElem hle, Option.toList_some, List.flatten_append,
        List.length_append, List.flatten_singleton]
      by_cases hsame : i = j
      · rw [hsame]
        omega
      · have hless := ih (by omega) (by omega)
        omega

namespace Layout

open Std (HashMap HashSet)

variable {labels : HashMap Label Nat} {wide : HashSet Nat}
  {items : List (Option Label × CodeItem)} {lastLabel : Option Label}

/-- The bytes of an instruction are those of its parts, with the distances in them filled in. -/
def FilledIn (labels : HashMap Label Nat) (parts : List Chunk) (bytes : Bytes) : Prop :=
  ∃ pieces, List.Forall₂ (ChunkBytes labels) parts pieces ∧ bytes = pieces.flatten

/-- The first part of an instruction is settled, and has bytes unless the instruction has none. -/
theorem partsOf_eq_cons (known : HashMap Label Nat) (position : Nat) (isWide : Bool)
    {item : CodeItem} (hitem : item ≠ .plain []) :
    ∃ first rest, partsOf known position isWide item = .done first :: rest ∧ first ≠ [] := by
  cases item with
  | plain bytes => exact ⟨bytes, [], rfl, fun hnil => hitem (congrArg _ hnil)⟩
  | branch condition target =>
      simp only [partsOf]
      split
      next => exact ⟨_, _, rfl, List.cons_ne_nil _ _⟩
      next =>
        split
        next =>
          split
          next => exact ⟨_, _, rfl, List.cons_ne_nil _ _⟩
          next => exact ⟨_, _, rfl, List.cons_ne_nil _ _⟩
        next => exact ⟨_, _, rfl, List.cons_ne_nil _ _⟩
  | jump opcode wideOpcode target =>
      simp only [partsOf]
      split
      next =>
        split
        next => exact ⟨_, _, rfl, List.cons_ne_nil _ _⟩
        next => exact ⟨_, _, rfl, List.cons_ne_nil _ _⟩
      next =>
        split
        next => exact ⟨_, _, rfl, List.cons_ne_nil _ _⟩
        next => exact ⟨_, _, rfl, List.cons_ne_nil _ _⟩
  | table fallback low high targets => exact ⟨_, _, rfl, List.cons_ne_nil _ _⟩
  | lookup fallback cases => exact ⟨_, _, rfl, List.cons_ne_nil _ _⟩

/-- An instruction that has bytes at all has some when its distances are filled in. -/
theorem FilledIn.ne_nil {known : HashMap Label Nat} {position : Nat} {isWide : Bool}
    {item : CodeItem} {bytes : Bytes}
    (h : FilledIn labels (partsOf known position isWide item) bytes) (hitem : item ≠ .plain []) :
    bytes ≠ [] := by
  obtain ⟨first, rest, hparts, hfirst⟩ := partsOf_eq_cons known position isWide hitem
  obtain ⟨pieces, hpieces, rfl⟩ := h
  rw [hparts] at hpieces
  cases hpieces with
  | @cons _ piece _ pieces hpiece _ =>
      obtain rfl : piece = first := hpiece
      intro hnil
      exact hfirst (List.append_eq_nil_iff.mp hnil).1

/-- **Instructions that are placed one after the other start behind each other.**  Their bytes fill
up the room between where they start. -/
theorem addAll_starts {placement placement' : Placement}
    (h : Placement.addAll wide items placement = .ok placement') :
    ∃ parts starts, placement'.placed = parts.reverse ++ placement.placed ∧
      placement'.offsets.toList = placement.offsets.toList ++ starts ∧
      parts.length = items.length ∧ starts.length = items.length ∧
      ∀ (labels : HashMap Label Nat) (chunks : List Bytes),
        List.Forall₂ (FilledIn labels) parts chunks →
          placement'.size = placement.size + chunks.flatten.length ∧
          (∀ index start, starts[index]? = some start →
            start = placement.size + (chunks.take index).flatten.length) ∧
          ((∀ item ∈ items, item.2 ≠ .plain []) → ∀ chunk ∈ chunks, chunk ≠ []) := by
  induction items generalizing placement with
  | nil =>
      cases h
      refine ⟨[], [], rfl, (List.append_nil _).symm, rfl, rfl, fun labels chunks hchunks => ?_⟩
      cases hchunks
      refine ⟨rfl, fun index start hstart => ?_, fun _ chunk hmem => ?_⟩
      · cases hstart
      · cases hmem
  | cons entry items ih =>
      obtain ⟨label, item⟩ := entry
      obtain ⟨_, _, hrest⟩ := bind_eq_ok.mp h
      let isWide := wide.contains placement.offsets.size
      let added := placement.add isWide label item
      obtain ⟨parts, starts, hplaced, hoffsets, hparts, hstarts, hfilled⟩ := ih hrest
      refine ⟨partsOf added.labels placement.size isWide item :: parts, placement.size :: starts,
        ?_, ?_, congrArg (· + 1) hparts, congrArg (· + 1) hstarts, fun labels chunks hchunks => ?_⟩
      · rw [hplaced, List.reverse_cons, List.append_assoc]
        rfl
      · have hpush : added.offsets.toList = placement.offsets.toList ++ [placement.size] :=
          Array.toList_push
        rw [hoffsets, hpush, List.append_assoc]
        rfl
      · cases hchunks with
        | @cons _ chunk _ chunks hfirst hchunks =>
          obtain ⟨pieces, hpieces, hchunk⟩ := id hfirst
          have hsize : added.size = placement.size + chunk.length := by
            rw [hchunk]
            exact foldl_size hpieces placement.size
          obtain ⟨htotal, hindex, hbytes⟩ := hfilled labels chunks hchunks
          rw [hsize] at htotal hindex
          refine ⟨?_, fun index start hstart => ?_, fun hitems => ?_⟩
          · rw [htotal, List.flatten_cons, List.length_append, Nat.add_assoc]
          · cases index with
            | zero =>
                cases hstart
                rfl
            | succ index =>
                rw [hindex index start hstart, List.take_succ_cons, List.flatten_cons,
                  List.length_append, Nat.add_assoc]
          · obtain ⟨hitem, hothers⟩ := List.forall_mem_cons.mp hitems
            exact List.forall_mem_cons.mpr ⟨hfirst.ne_nil hitem, hbytes hothers⟩

/-- **The bytes of each instruction stand where it starts**, and behind the last one the code ends. -/
theorem ofItems_starts {layout : Layout} (h : ofItems items lastLabel = .ok layout) :
    layout.chunks.length = items.length ∧ layout.size = layout.chunks.flatten.length ∧
      layout.size < 65536 ∧
      (∀ index, layout.offsetOf index = (layout.chunks.take index).flatten.length) ∧
      ((∀ item ∈ items, item.2 ≠ .plain []) → ∀ chunk ∈ layout.chunks, chunk ≠ []) := by
  obtain ⟨placement, hplace, hfilled, _, hoffsets, hsize⟩ := settle_eq_ok h
  obtain ⟨before, hbefore, hsmall, hplaced, hoffsets', hsize', _⟩ := place_eq_ok hplace
  obtain ⟨parts, starts, hparts, hstarts, hlength, hlength', hall⟩ := addAll_starts hbefore
  obtain ⟨chunks, hchunks, hforall⟩ := fillAll_eq_inl hfilled
  rw [List.reverse_nil, List.nil_append] at hchunks
  rw [hplaced, hparts, List.append_nil, List.reverse_reverse, ← hchunks] at hforall
  obtain ⟨htotal, hindex, hbytes⟩ := hall placement.labels layout.chunks hforall
  have hzero : ({} : Placement).size = 0 := rfl
  rw [hzero, Nat.zero_add] at htotal
  have hcount : layout.chunks.length = items.length := by
    rw [← hforall.length_eq, hlength]
  have hends : layout.size = layout.chunks.flatten.length := by
    rw [hsize, hsize', htotal]
  refine ⟨hcount, hends, by rw [hsize, hsize']; exact hsmall, fun index => ?_, hbytes⟩
  have hknown : layout.offsets[index]? = starts[index]? := by
    rw [hoffsets, hoffsets', ← Array.getElem?_toList, hstarts]
    rfl
  unfold offsetOf
  rw [hknown]
  by_cases hlt : index < starts.length
  · rw [List.getElem?_eq_getElem hlt, Option.getD_some,
      hindex index _ (List.getElem?_eq_getElem hlt), hzero, Nat.zero_add]
  · have hbehind : layout.chunks.length ≤ index := by omega
    rw [List.getElem?_eq_none (Nat.le_of_not_lt hlt), Option.getD_none,
      List.take_of_length_le hbehind, hends]

end Layout

namespace Encode

/-- No instruction is written without bytes. -/
theorem item_ne_nil {instruction : Instruction} {next : CodeItem} {pool pool' : Pool.Builder}
    (h : item instruction pool = .ok (next, pool')) : next ≠ .plain [] := by
  intro hnil
  subst hnil
  cases instruction <;> simp only [item, withIndex, work_bind_eq_ok, work_pure_eq_ok] at h <;>
    grind [onSlot, work_pure_eq_ok, PoolM.refuse, fail]

/-- What is written for an instruction has its label, and is what the instruction is put into some
pool as. -/
def Item (entry : Labelled) (written : Option Label × CodeItem) : Prop :=
  written.1 = entry.label ∧
    ∃ pool pool' : Pool.Builder, item entry.instruction pool = .ok (written.2, pool')

/-- Instructions are written one by one, behind others. -/
theorem itemsFrom_run {placement : Layout.Placement} {done found : List (Option Label × CodeItem)}
    {entries : List Labelled} {pool pool' : Pool.Builder}
    (h : itemsFrom placement done entries pool = .ok (found, pool')) :
    ∃ own, found = done.reverse ++ own ∧ List.Forall₂ Item entries own := by
  induction entries generalizing placement done pool with
  | nil =>
      obtain ⟨rfl, -⟩ := work_pure_eq_ok.mp h
      exact ⟨[], (List.append_nil _).symm, .nil⟩
  | cons entry rest ih =>
      obtain ⟨_, _, -, h⟩ := work_bind_eq_ok.mp h
      obtain ⟨next, between, hnext, h⟩ := work_bind_eq_ok.mp h
      obtain ⟨own, rfl, hown⟩ := ih h
      refine ⟨(entry.label, next) :: own, ?_, .cons ⟨rfl, _, _, within_eq_ok.mp hnext⟩ hown⟩
      rw [List.reverse_cons, List.append_assoc]
      rfl

/-- **Instructions are written one by one.** -/
theorem items_forall₂ {instructions : List Labelled} {found : List (Option Label × CodeItem)}
    {pool pool' : Pool.Builder} (h : items instructions pool = .ok (found, pool')) :
    List.Forall₂ Item instructions found := by
  obtain ⟨own, hfound, hown⟩ := itemsFrom_run h
  obtain rfl : found = own := hfound
  exact hown

/-- **No instruction of code is without bytes.** -/
theorem items_ne_nil {instructions : List Labelled} {found : List (Option Label × CodeItem)}
    {pool pool' : Pool.Builder} (h : items instructions pool = .ok (found, pool')) :
    found.length = instructions.length ∧ ∀ item ∈ found, item.2 ≠ .plain [] := by
  have hall := items_forall₂ h
  refine ⟨hall.length_eq.symm, fun written hmem => ?_⟩
  obtain ⟨entry, -, -, _, _, hrun⟩ := exists_left_of_forall₂ hall hmem
  exact item_ne_nil hrun

end Encode

end Downlevel
