import Downlevel.Proofs.Accessor.Listing
import Downlevel.Proofs.Renaming.Frames
import Downlevel.Proofs.Running.Machine

/-!
# Code in blocks

Code that decides something is written in blocks: a block either ends the code or goes to one of the
next blocks, whose first instruction carries a label for that.  The labels have numbers, one more
from block to block.

* `Code.ofPieces_sequence`, `Code.ofPieces_blocks` — such code as a list of instructions with labels;
* `Code.labelIndices_numbered` — a block is found by its label;
* `Running.Returns.of_sequence` — running instructions one after the other;
* `Running.reaches_block`, `Running.reaches_next` — running a block, to its end or to the next one.
-/

namespace Downlevel

namespace Label

/-- The label with a number. -/
def numbered (n : Nat) : Label :=
  ⟨n.toUInt16⟩

/-- Small numbers make different labels. -/
theorem numbered_inj {first second : Nat} (hfirst : first < 65536) (hsecond : second < 65536)
    (h : numbered first = numbered second) : first = second := by
  have hnumbers : first.toUInt16.toNat = second.toUInt16.toNat := by
    rw [numbered, numbered, Label.mk.injEq] at h
    rw [h]
  simpa [Nat.toUInt16, Nat.mod_eq_of_lt hfirst, Nat.mod_eq_of_lt hsecond] using hnumbers

end Label

namespace Labelled

/-- Instructions of which the first one carries a label. -/
def carrying (label : Label) : List Instruction → List Labelled
  | [] => []
  | first :: rest => ⟨some label, first⟩ :: rest.map Instruction.plain

/-- A label on instructions does not change them. -/
@[simp] theorem map_instruction_carrying (label : Label) (instructions : List Instruction) :
    (carrying label instructions).map instruction = instructions := by
  cases instructions with
  | nil => rfl
  | cons first rest => simp [carrying, Instruction.plain, Function.comp_def]

/-- The only label on instructions is that on the first one. -/
theorem eq_of_mem_carrying {label other : Label} {instructions : List Instruction}
    (h : other ∈ (carrying label instructions).filterMap Labelled.label) : other = label := by
  cases instructions with
  | nil => cases h
  | cons first rest => simpa [carrying, Instruction.plain] using h

/-- Blocks one after the other, the first of which carries the label of the number `index`. -/
def numbered : Nat → List (List Instruction) → List Labelled
  | _, [] => []
  | index, block :: rest => carrying (.numbered index) block ++ numbered (index + 1) rest

/-- The labels on blocks have the numbers of the blocks. -/
theorem exists_of_mem_numbered {index : Nat} {blocks : List (List Instruction)} {found : Label}
    (h : found ∈ (numbered index blocks).filterMap Labelled.label) :
    ∃ number, index ≤ number ∧ number < index + blocks.length ∧ found = .numbered number := by
  induction blocks generalizing index with
  | nil => cases h
  | cons block rest ih =>
      rw [numbered, List.filterMap_append, List.mem_append] at h
      rw [List.length_cons]
      rcases h with hhere | hrest
      · exact ⟨index, Nat.le_refl _, by omega, eq_of_mem_carrying hhere⟩
      · obtain ⟨number, hlow, hhigh, hfound⟩ := ih hrest
        exact ⟨number, by omega, by omega, hfound⟩

end Labelled

namespace Piece

/-- The pieces for blocks, the first of which carries the label of the number `index`. -/
def blocks : Nat → List (List Instruction) → List Piece
  | _, [] => []
  | index, block :: rest => .place (.numbered index) :: sequence block ++ blocks (index + 1) rest

end Piece

namespace Assembly

/-- Instructions that are put together behind a label carry it. -/
theorem foldl_carrying {instructions : List Instruction} (hsome : instructions ≠ []) (label : Label)
    (done : List Labelled) :
    (Piece.sequence instructions).foldl add ⟨done, [], some label, []⟩ =
      ⟨(Labelled.carrying label instructions).reverse ++ done, [], none, []⟩ := by
  cases instructions with
  | nil => exact absurd rfl hsome
  | cons first rest =>
      have hfirst : add ⟨done, [], some label, []⟩ (.push first) =
          ⟨⟨some label, first⟩ :: done, [], none, []⟩ := rfl
      rw [Piece.sequence, List.map_cons, List.foldl_cons, hfirst, foldl_push rest rfl]
      simp [Labelled.carrying]

/-- Blocks are put together one after the other. -/
theorem foldl_blocks {blocks : List (List Instruction)} (hsome : ∀ block ∈ blocks, block ≠ [])
    (index : Nat) (done : List Labelled) :
    (Piece.blocks index blocks).foldl add ⟨done, [], none, []⟩ =
      ⟨(Labelled.numbered index blocks).reverse ++ done, [], none, []⟩ := by
  induction blocks generalizing index done with
  | nil => rfl
  | cons block rest ih =>
      obtain ⟨hblock, hrest⟩ := List.forall_mem_cons.mp hsome
      have hplace : add ⟨done, [], none, []⟩ (.place (.numbered index)) =
          ⟨done, [], some (.numbered index), []⟩ := rfl
      rw [Piece.blocks, List.cons_append, List.foldl_cons, hplace, List.foldl_append,
        foldl_carrying hblock, ih hrest, Labelled.numbered, List.reverse_append, List.append_assoc]

/-- Code that is put together without other names for labels is what was put together. -/
theorem finish_of_no_aliases {assembly : Assembly} (hnone : assembly.aliases = [])
    (hranges : assembly.exceptions = []) :
    assembly.finish =
      { instructions := assembly.instructions.reverse, lastLabel := assembly.pending } := by
  have hresolve : assembly.resolve = id := by
    funext label
    simp [Assembly.resolve, hnone]
  rw [Assembly.finish, hresolve, hranges]
  simp

end Assembly

namespace Code

/-- **Instructions one after the other** carry no labels. -/
theorem ofPieces_sequence (instructions : List Instruction) :
    ofPieces (Piece.sequence instructions) =
      { instructions := instructions.map Instruction.plain } := by
  rw [ofPieces, Piece.sequence, Assembly.foldl_push instructions rfl,
    Assembly.finish_of_no_aliases rfl rfl]
  simp

/-- **Blocks behind other instructions** carry their labels. -/
theorem ofPieces_blocks (front : List Instruction) {blocks : List (List Instruction)}
    (hsome : ∀ block ∈ blocks, block ≠ []) :
    ofPieces (Piece.sequence front ++ Piece.blocks 0 blocks) =
      { instructions := front.map Instruction.plain ++ Labelled.numbered 0 blocks } := by
  have hfront : (Piece.sequence front).foldl Assembly.add {} =
      ⟨(front.map Instruction.plain).reverse, [], none, []⟩ := by
    rw [Piece.sequence, Assembly.foldl_push front rfl, List.append_nil]
  rw [ofPieces, List.foldl_append, hfront, Assembly.foldl_blocks hsome,
    Assembly.finish_of_no_aliases rfl rfl]
  simp

/-- What instructions without a label on them do to the place that is noted for it. -/
theorem foldl_noteLabel_of_not_mem {entries : List Labelled} {label : Label}
    (h : label ∉ entries.filterMap Labelled.label) (found : Std.HashMap Label Nat × Nat) :
    (entries.foldl noteLabel found).1[label]? = found.1[label]? := by
  induction entries generalizing found with
  | nil => rfl
  | cons entry entries ih =>
      rw [List.foldl_cons]
      cases hentry : entry.label with
      | none =>
          rw [List.filterMap_cons_none hentry] at h
          rw [ih h, noteLabel, hentry]
      | some other =>
          rw [List.filterMap_cons_some hentry, List.mem_cons, not_or] at h
          have hne : ¬ other = label := fun heq => h.1 heq.symm
          rw [ih h.2, noteLabel, hentry, Std.HashMap.getElem?_insert]
          simp [hne]

/-- **A label is found** where it is, if no later instruction carries it. -/
theorem labelIndices_of_last {code : Code} {before after : List Labelled} {entry : Labelled}
    {label : Label} (hcode : code.instructions = before ++ entry :: after)
    (hentry : entry.label = some label) (hafter : label ∉ after.filterMap Labelled.label)
    (hlast : code.lastLabel = none) : code.labelIndices[label]? = some before.length := by
  rw [labelIndices_eq, hlast, hcode, List.foldl_append, List.foldl_cons,
    foldl_noteLabel_of_not_mem hafter, noteLabel, hentry, foldl_noteLabel_snd]
  simp

/-- **A block is found by its label.** -/
theorem labelIndices_numbered {code : Code} {before : List Labelled} {index : Nat}
    {block : List Instruction} {rest : List (List Instruction)}
    (hcode : code.instructions = before ++ Labelled.numbered index (block :: rest))
    (hsome : block ≠ []) (hlast : code.lastLabel = none) (hsmall : index + rest.length < 65536) :
    code.labelIndices[Label.numbered index]? = some before.length := by
  cases block with
  | nil => exact absurd rfl hsome
  | cons first others =>
      refine labelIndices_of_last hcode rfl ?_ hlast
      intro hlater
      rw [List.append_eq, List.filterMap_append, List.mem_append] at hlater
      rcases hlater with hhere | hrest
      · simp [Instruction.plain] at hhere
      · obtain ⟨number, hlow, hhigh, hsame⟩ := Labelled.exists_of_mem_numbered hrest
        have hnumber : index = number := Label.numbered_inj (by omega) (by omega) hsame
        omega

end Code

namespace Running

variable {V : Type} (around : Surroundings V) {code : Code} {before : List Labelled} {index : Nat}
  {block next : List Instruction} {rest : List (List Instruction)}

/-- **Instructions one after the other** return what performing them ends with. -/
theorem Returns.of_sequence {instructions : List Instruction} {value : Value V}
    {locals : UInt16 → Option (Value V)}
    (h : performAll around ⟨[], locals, []⟩ instructions = .finish value) :
    Returns around (Code.ofPieces (Piece.sequence instructions)) locals value := by
  have hcode : (Code.ofPieces (Piece.sequence instructions)).instructions =
      [] ++ instructions.map Instruction.plain ++ [] := by
    rw [Code.ofPieces_sequence]
    simp
  have hstands := Stands.of_append hcode
  rw [List.map_map] at hstands
  have hplain : instructions.map (Labelled.instruction ∘ Instruction.plain) = instructions := by
    simp [Function.comp_def, Instruction.plain]
  rw [hplain] at hstands
  have hreaches := reaches_performAll around ⟨[], locals, []⟩ hstands
  rwa [h] at hreaches

/-- Blocks behind the first one, with that one in front of them. -/
theorem blocks_behind
    (hcode : code.instructions = before ++ Labelled.numbered index (block :: rest)) :
    code.instructions =
      before ++ Labelled.carrying (.numbered index) block ++ Labelled.numbered (index + 1) rest := by
  rw [hcode, Labelled.numbered, List.append_assoc]

/-- **A block is performed from its place on.** -/
theorem reaches_block (frame : Frame V)
    (hcode : code.instructions = before ++ Labelled.numbered index (block :: rest)) :
    Reaches around code (.running before.length frame)
      ((performAll around frame block).after code (before.length + block.length)) := by
  have hstands := Stands.of_append (blocks_behind hcode)
  rw [Labelled.map_instruction_carrying] at hstands
  exact reaches_performAll around frame hstands

/-- **A block that goes to the next one** leads to its place. -/
theorem reaches_next {frame frame' : Frame V}
    (hcode : code.instructions = before ++ Labelled.numbered index (block :: next :: rest))
    (hsome : next ≠ []) (hlast : code.lastLabel = none)
    (hsmall : index + 1 + rest.length < 65536)
    (hjump : performAll around frame block = .jump (.numbered (index + 1)) frame') :
    Reaches around code (.running before.length frame)
      (.running (before ++ Labelled.carrying (.numbered index) block).length frame') := by
  have hreaches := reaches_block around frame hcode
  have hplace := Code.labelIndices_numbered (blocks_behind hcode) hsome hlast hsmall
  rwa [hjump, Effect.after, hplace] at hreaches

end Running

end Downlevel
