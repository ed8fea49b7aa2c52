import Mathlib.Data.List.Induction
import Downlevel.Proofs.Lower.Pieces
import Downlevel.Proofs.Running.Blocks

/-!
# Labels stand for the places where they were put

Code is built by a builder that hands out labels.  It is asked for labels and given pieces in any
order: instructions may refer to labels that are placed later, or were placed before, and labels may
be placed one right after the other.  Of those only the first one stays, and the others become names
for it that are looked up once, at the end.  Once is enough, as a label that waits for its
instruction is not a name for another one.

At any time a label that was placed stands for one that is either on the instruction that was pushed
next, or still waits, behind as many instructions as were there when it was placed.

* `CodeBuilder.run` — what a builder does when it is asked for labels and given pieces;
* `Assembly.Made` — what holds of everything that was put together from pieces, and
  `Assembly.made_foldl` — that it does;
* `Code.labelIndices_of_nodup` — in code without double labels a label is found where it is;
* `CodeBuilder.places_of_run` — **labels are found where they were placed**, under another name if
  they were placed right behind another label.
-/

namespace Downlevel

/-! ## The pieces -/

namespace Piece

/-- The instructions that pieces push, in order. -/
def pushed (pieces : List Piece) : List Instruction :=
  pieces.filterMap fun piece =>
    match piece with
    | .push instruction => some instruction
    | _ => none

/-- The ranges of pieces, in order. -/
def ranges (pieces : List Piece) : List ExceptionRange :=
  pieces.filterMap fun piece =>
    match piece with
    | .guarded range => some range
    | _ => none

/-- An instruction places nothing. -/
@[simp] theorem places_push (instruction : Instruction) (rest : List Piece) :
    places (.push instruction :: rest) = places rest := rfl

/-- What pieces push is what one part of them pushes, and what the other does. -/
@[simp] theorem pushed_append (front back : List Piece) :
    pushed (front ++ back) = pushed front ++ pushed back :=
  List.filterMap_append

/-- The ranges of pieces are those of one part of them, and those of the other. -/
@[simp] theorem ranges_append (front back : List Piece) :
    ranges (front ++ back) = ranges front ++ ranges back :=
  List.filterMap_append

end Piece

/-! ## Labels are where they were placed -/

namespace Assembly

variable {assembly : Assembly} {label other : Label} {index : Nat} {pieces : List Piece}

/-- A label has as many instructions in front of it as an index tells: it is on the instruction
there, or it waits for the instruction that will be there. -/
def At (assembly : Assembly) (label : Label) (index : Nat) : Prop :=
  (assembly.pending = some label ∧ index = assembly.instructions.length) ∨
    ∃ entry, assembly.instructions.reverse[index]? = some entry ∧ entry.label = some label

/-- Behind one more instruction a label is where it was: on that instruction if it waited for one.
-/
theorem At.push (h : assembly.At label index) (instruction : Instruction) :
    (assembly.add (.push instruction)).At label index := by
  have hreverse : (assembly.add (.push instruction)).instructions.reverse =
      assembly.instructions.reverse ++ [⟨assembly.pending, instruction⟩] := List.reverse_cons
  refine .inr ?_
  rw [hreverse]
  rcases h with ⟨hpending, rfl⟩ | ⟨entry, hentry, hlabel⟩
  · refine ⟨⟨assembly.pending, instruction⟩, ?_, hpending⟩
    rw [List.getElem?_append_right (by simp)]
    simp
  · refine ⟨entry, ?_, hlabel⟩
    rwa [List.getElem?_append_left (List.getElem?_eq_some_iff.mp hentry).1]

/-- A label waits if no other one does. -/
theorem add_place_of_none (h : assembly.pending = none) (label : Label) :
    assembly.add (.place label) = { assembly with pending := some label } := by
  simp only [add, h]

/-- A label becomes a name for the one that waits. -/
theorem add_place_of_some {waiting : Label} (h : assembly.pending = some waiting) (label : Label) :
    assembly.add (.place label) =
      { assembly with aliases := (label, waiting) :: assembly.aliases } := by
  simp only [add, h]

/-- Behind one more label a label is where it was: the one that waits still does. -/
theorem At.place (h : assembly.At label index) (other : Label) :
    (assembly.add (.place other)).At label index := by
  cases hpending : assembly.pending with
  | none =>
      rw [add_place_of_none hpending]
      rcases h with ⟨hlabel, _⟩ | hentry
      · cases hpending.symm.trans hlabel
      · exact .inr hentry
  | some waiting =>
      rw [add_place_of_some hpending]
      exact h

/-- A label that is placed later does not change what another label stands for. -/
theorem resolve_place (hne : label ≠ other) :
    (assembly.add (.place other)).resolve label = assembly.resolve label := by
  cases hpending : assembly.pending with
  | none => rw [add_place_of_none hpending, resolve, resolve]
  | some waiting =>
      have hlookup : (label == other) = false := by simpa using hne
      rw [add_place_of_some hpending, resolve, resolve, List.lookup_cons, hlookup]

/-- **A label that is placed** stands for one behind all instructions so far. -/
theorem at_place (hnew : assembly.resolve label = label) :
    (assembly.add (.place label)).At ((assembly.add (.place label)).resolve label)
      assembly.instructions.length := by
  cases hpending : assembly.pending with
  | none =>
      rw [add_place_of_none hpending]
      exact .inl ⟨congrArg some hnew.symm, rfl⟩
  | some waiting =>
      have hwaiting : (assembly.add (.place label)).resolve label = waiting := by
        rw [add_place_of_some hpending, resolve, List.lookup_cons, beq_self_eq_true]
        rfl
      rw [hwaiting, add_place_of_some hpending]
      exact .inl ⟨hpending, rfl⟩

/-- What was put together from pieces: the instructions and ranges as they were given, and for each
label that was placed one behind as many instructions. -/
structure Made (assembly : Assembly) (pieces : List Piece) : Prop where
  sound : assembly.Sound (Piece.places pieces)
  instructions : assembly.instructions.reverse.map Labelled.instruction = Piece.pushed pieces
  exceptions : assembly.exceptions.reverse = Piece.ranges pieces
  located : ∀ front label back, pieces = front ++ .place label :: back →
    assembly.At (assembly.resolve label) (Piece.pushed front).length

/-- Nothing was put together from no pieces. -/
theorem made_empty : Made {} [] where
  sound := sound_empty
  instructions := rfl
  exceptions := rfl
  located front label back h := by simp at h

/-- There are as many instructions as were pushed. -/
theorem Made.length_instructions (h : assembly.Made pieces) :
    assembly.instructions.length = (Piece.pushed pieces).length := by
  rw [← h.instructions, List.length_map, List.length_reverse]

/-- A label that is placed by pieces and one more was placed by them before, or is the last one. -/
theorem eq_of_concat_eq {pieces front back : List Piece} {piece : Piece}
    (h : pieces ++ [piece] = front ++ .place label :: back) :
    (front = pieces ∧ piece = .place label) ∨
      ∃ back', pieces = front ++ .place label :: back' := by
  rcases List.eq_nil_or_concat back with rfl | ⟨back', last, rfl⟩
  · obtain ⟨hfront, hpiece⟩ := List.append_inj' h rfl
    exact .inl ⟨hfront.symm, List.singleton_inj.mp hpiece⟩
  · refine .inr ⟨back', ?_⟩
    have hsplit : pieces ++ [piece] = (front ++ .place label :: back') ++ [last] := by
      simpa using h
    exact (List.append_inj' hsplit rfl).1

/-- **One more piece** is put behind the others. -/
theorem Made.add (h : assembly.Made pieces) {piece : Piece}
    (hnodup : (Piece.places (pieces ++ [piece])).Nodup) :
    (assembly.add piece).Made (pieces ++ [piece]) := by
  cases piece with
  | push instruction =>
      refine ⟨?_, ?_, ?_, ?_⟩
      · rw [Piece.places_append, Piece.places_push, Piece.places_nil, List.append_nil]
        exact h.sound.push instruction
      · rw [Piece.pushed_append, ← h.instructions]
        show List.map _ (List.reverse (_ :: _)) = _
        simp [Piece.pushed]
      · rw [Piece.ranges_append, ← h.exceptions]
        exact (List.append_nil _).symm
      · intro front label back hsplit
        rcases eq_of_concat_eq hsplit with ⟨_, hpiece⟩ | ⟨back', hearlier⟩
        · cases hpiece
        · exact (h.located front label back' hearlier).push instruction
  | guarded range =>
      refine ⟨?_, ?_, ?_, ?_⟩
      · rw [Piece.places_append, Piece.places_guarded, Piece.places_nil, List.append_nil]
        exact ⟨h.sound.nodup, h.sound.placed, h.sound.renamed, h.sound.resolves⟩
      · rw [Piece.pushed_append, ← h.instructions]
        exact (List.append_nil _).symm
      · rw [Piece.ranges_append, ← h.exceptions]
        exact List.reverse_cons
      · intro front label back hsplit
        rcases eq_of_concat_eq hsplit with ⟨_, hpiece⟩ | ⟨back', hearlier⟩
        · cases hpiece
        · exact h.located front label back' hearlier
  | place label =>
      rw [Piece.places_append, Piece.places_place, Piece.places_nil] at hnodup
      have hnew : label ∉ Piece.places pieces := fun hmem =>
        (List.nodup_append.mp hnodup).2.2 label hmem label (List.mem_singleton.mpr rfl) rfl
      have hkept : (assembly.add (.place label)).instructions = assembly.instructions ∧
          (assembly.add (.place label)).exceptions = assembly.exceptions := by
        unfold Assembly.add
        cases assembly.pending <;> exact ⟨rfl, rfl⟩
      refine ⟨?_, ?_, ?_, ?_⟩
      · simpa using h.sound.place hnew
      · rw [hkept.1, h.instructions, Piece.pushed_append]
        exact (List.append_nil _).symm
      · rw [hkept.2, h.exceptions, Piece.ranges_append]
        exact (List.append_nil _).symm
      · intro front other back hsplit
        rcases eq_of_concat_eq hsplit with ⟨rfl, hpiece⟩ | ⟨back', hearlier⟩
        · cases hpiece
          rw [← h.length_instructions]
          exact at_place (h.sound.resolve_of_not_mem hnew)
        · have hother : other ∈ Piece.places pieces := by simp [hearlier]
          have hne : other ≠ label := fun heq => hnew (heq ▸ hother)
          rw [resolve_place hne]
          exact (h.located front other back' hearlier).place label

/-- **Pieces are put together**, if each label is placed once. -/
theorem made_foldl (hnodup : (Piece.places pieces).Nodup) :
    (pieces.foldl Assembly.add {}).Made pieces := by
  induction pieces using List.reverseRecOn with
  | nil => exact made_empty
  | append_singleton pieces piece ih =>
      have hfront : (Piece.places pieces).Nodup := by
        rw [Piece.places_append] at hnodup
        exact (List.nodup_append.mp hnodup).1
      rw [List.foldl_append]
      exact (ih hfront).add hnodup

end Assembly

namespace Code

/-- **A label is found where it is**, if no label is there twice. -/
theorem labelIndices_of_nodup {code : Code} (hnodup : code.labels.Nodup) {index : Nat}
    {entry : Labelled} {label : Label} (hentry : code.instructions[index]? = some entry)
    (hlabel : entry.label = some label) : code.labelIndices[label]? = some index := by
  obtain ⟨hlt, rfl⟩ := List.getElem?_eq_some_iff.mp hentry
  have hsplit : code.instructions = code.instructions.take index ++
      code.instructions[index] :: code.instructions.drop (index + 1) := by
    rw [List.getElem_cons_drop, List.take_append_drop]
  have hunique := hnodup
  rw [labels, hsplit, List.filterMap_append, List.filterMap_cons_some hlabel, List.append_assoc,
    List.cons_append] at hunique
  have hafter := (List.nodup_cons.mp (List.nodup_append.mp hunique).2.1).1
  rw [List.mem_append, not_or] at hafter
  -- The last label is another one, so leaving it out makes no difference.
  have hopen : ({ code with lastLabel := none } : Code).labelIndices[label]? =
      code.labelIndices[label]? := by
    rw [labelIndices_eq, labelIndices_eq]
    cases hlast : code.lastLabel with
    | none => rfl
    | some last =>
        have hne : ¬ last = label := by
          rintro rfl
          exact hafter.2 (by simp [hlast])
        dsimp only
        rw [Std.HashMap.getElem?_insert]
        simp [hne]
  have hfound : ({ code with lastLabel := none } : Code).labelIndices[label]? =
      some (code.instructions.take index).length :=
    labelIndices_of_last hsplit hlabel hafter.1 rfl
  rw [← hopen, hfound, List.length_take, Nat.min_eq_left hlt.le]

end Code

namespace Assembly

variable {assembly : Assembly} {label : Label} {index : Nat}

/-- The labels of code that was put together. -/
theorem perm_labels_finish (assembly : Assembly) :
    assembly.finish.labels.Perm assembly.labels := by
  have hplaced : assembly.finish.instructions.filterMap Labelled.label =
      (assembly.instructions.filterMap Labelled.label).reverse := by
    rw [finish, List.filterMap_map, ← List.filterMap_reverse]
    rfl
  rw [Code.labels, hplaced, labels]
  exact List.perm_append_comm.trans (List.Perm.append_left _ (List.reverse_perm _))

/-- **A label is found where it is** in code that was put together. -/
theorem At.labelIndices_finish (h : assembly.At label index)
    (hnodup : assembly.finish.labels.Nodup) : assembly.finish.labelIndices[label]? = some index := by
  rcases h with ⟨hpending, rfl⟩ | ⟨entry, hentry, hlabel⟩
  · have hlast : assembly.finish.lastLabel = some label := hpending
    rw [Code.labelIndices_last hlast]
    simp [finish]
  · have hfinished : assembly.finish.instructions[index]? =
        some ⟨entry.label, entry.instruction.mapLabels assembly.resolve⟩ := by
      rw [finish, List.getElem?_map, hentry, Option.map_some]
    exact Code.labelIndices_of_nodup hnodup hfinished hlabel

end Assembly

/-! ## The builder -/

/-- A builder of code: what was put together so far, and the labels that were handed out. -/
structure CodeBuilder where
  assembly : Assembly := {}
  /-- The number of the next label. -/
  nextLabel : UInt16 := 0
  handedOut : List Label := []

namespace CodeBuilder

/-- What a builder is asked for, or given. -/
inductive Request where
  /-- A label that was not handed out yet. -/
  | newLabel
  /-- A piece to add. -/
  | add (piece : Piece)
  deriving DecidableEq

/-- Hands out a label, or adds a piece. -/
def serve (builder : CodeBuilder) : Request → CodeBuilder
  | .newLabel =>
      { builder with
        nextLabel := builder.nextLabel + 1
        handedOut := builder.handedOut ++ [⟨builder.nextLabel⟩] }
  | .add piece => { builder with assembly := builder.assembly.add piece }

/-- What is asked for one after the other. -/
def run (requests : List Request) : CodeBuilder :=
  requests.foldl serve {}

/-- The pieces that a builder is given. -/
def pieces (requests : List Request) : List Piece :=
  requests.filterMap fun request =>
    match request with
    | .add piece => some piece
    | .newLabel => none

variable {requests : List Request}

/-- The pieces that a builder is given are put together, whatever labels it hands out in between. -/
theorem assembly_foldl (requests : List Request) (builder : CodeBuilder) :
    (requests.foldl serve builder).assembly =
      (pieces requests).foldl Assembly.add builder.assembly := by
  induction requests generalizing builder with
  | nil => rfl
  | cons request requests ih =>
      cases request with
      | newLabel => exact ih _
      | add piece => exact ih _

/-- Labels are handed out with numbers in a row. -/
theorem handedOut_run (requests : List Request) :
    (run requests).handedOut = (List.range (requests.count .newLabel)).map Label.numbered ∧
      (run requests).nextLabel = (requests.count .newLabel).toUInt16 := by
  induction requests using List.reverseRecOn with
  | nil => exact ⟨rfl, rfl⟩
  | append_singleton requests request ih =>
      obtain ⟨hhanded, hnext⟩ := ih
      have hrun : run (requests ++ [request]) = (run requests).serve request := by
        simp [run]
      rw [hrun, List.count_append]
      cases request with
      | newLabel =>
          rw [List.count_singleton_self, List.range_succ, List.map_append, ← hhanded]
          refine ⟨?_, ?_⟩
          · show _ ++ [_] = _
            rw [hnext]
            rfl
          · show (run requests).nextLabel + 1 = _
            rw [hnext]
            exact (UInt16.ofNat_add _ _).symm
      | add piece =>
          rw [List.count_singleton]
          exact ⟨hhanded, hnext⟩

/-- **Labels are found where they were placed.**  A builder that hands out at most 65535 labels, and
that is given pieces that place each label at most once, hands out different labels and makes code
of the instructions and ranges that it was given, in order.  In these labels have changed: each one
that was placed is turned into one that is behind as many instructions as were pushed before it was
placed, and any other stays.  No label is in the code twice. -/
theorem places_of_run (hcount : requests.count .newLabel ≤ 65535)
    (hplaces : (Piece.places (pieces requests)).Nodup) :
    (run requests).handedOut.Nodup ∧
      ∃ turned : Label → Label,
        (run requests).assembly.finish.instructions.map Labelled.instruction =
            (Piece.pushed (pieces requests)).map (Instruction.mapLabels turned) ∧
          (run requests).assembly.finish.exceptions =
            (Piece.ranges (pieces requests)).map (ExceptionRange.mapLabels turned) ∧
          (∀ front label back, requests = front ++ .add (.place label) :: back →
            (run requests).assembly.finish.labelIndices[turned label]? =
              some (Piece.pushed (pieces front)).length) ∧
          (∀ label, label ∉ Piece.places (pieces requests) → turned label = label) ∧
          (run requests).assembly.finish.labels.Nodup := by
  have hassembly : (run requests).assembly = (pieces requests).foldl Assembly.add {} :=
    assembly_foldl requests {}
  have hmade := Assembly.made_foldl hplaces
  rw [← hassembly] at hmade
  generalize (run requests).assembly = assembly at hmade
  have hnodup : assembly.finish.labels.Nodup :=
    assembly.perm_labels_finish.nodup_iff.mpr hmade.sound.nodup
  refine ⟨?_, assembly.resolve, ?_, ?_, ?_, ?_, hnodup⟩
  · rw [(handedOut_run requests).1]
    exact Code.nodup_row (by omega)
  · rw [← hmade.instructions]
    simp [Assembly.finish]
  · rw [← hmade.exceptions]
    rfl
  · rintro front label back rfl
    refine (hmade.located (pieces front) label (pieces back) ?_).labelIndices_finish hnodup
    simp [pieces]
  · exact fun label hnew => hmade.sound.resolve_of_not_mem hnew

/-- A builder hands out three labels.  The first two are placed in front of one instruction, where
jumps to both of them come from both sides, and the last one behind the code, where a range ends. -/
def together : List Request :=
  [.newLabel, .newLabel, .newLabel,
    .add (.push (.goto ⟨1⟩)), .add (.place ⟨0⟩), .add (.place ⟨1⟩), .add (.push (.op .iconst0)),
    .add (.push (.goto ⟨0⟩)), .add (.guarded ⟨⟨0⟩, ⟨2⟩, ⟨1⟩, none⟩), .add (.place ⟨2⟩)]

/-- Both labels are found in front of the second instruction, and the last one behind all three. -/
theorem places_of_run_together :
    together.count .newLabel ≤ 65535 ∧ (Piece.places (pieces together)).Nodup ∧
      ∃ turned : Label → Label,
        (run together).assembly.finish.instructions.map Labelled.instruction =
            [.goto (turned ⟨1⟩), .op .iconst0, .goto (turned ⟨0⟩)] ∧
          (run together).assembly.finish.exceptions =
            [⟨turned ⟨0⟩, turned ⟨2⟩, turned ⟨1⟩, none⟩] ∧
          (run together).assembly.finish.labelIndices[turned ⟨0⟩]? = some 1 ∧
          (run together).assembly.finish.labelIndices[turned ⟨1⟩]? = some 1 ∧
          (run together).assembly.finish.labelIndices[turned ⟨2⟩]? = some 3 := by
  have hcount : together.count .newLabel ≤ 65535 := by decide
  have hplaces : (Piece.places (pieces together)).Nodup := by decide
  obtain ⟨-, turned, hinstructions, hranges, hplaced, -, -⟩ := places_of_run hcount hplaces
  exact ⟨hcount, hplaces, turned, hinstructions, hranges, hplaced (together.take 4) ⟨0⟩ _ rfl,
    hplaced (together.take 5) ⟨1⟩ _ rfl, hplaced (together.take 9) ⟨2⟩ _ rfl⟩

end CodeBuilder

end Downlevel
