import Mathlib
import Downlevel.Proofs.Exchange.Constructor
import Downlevel.Proofs.Lower.Methods
import Downlevel.Proofs.Renaming.Frames

/-!
# Code with another exception in the place of one does the same

Where the exception for failed matches is replaced, one instruction becomes up to seven.  All other
instructions move up, labels denote the places to which their instructions move, and ranges cover
what takes the place of the instructions they covered.  So both codes can be run side by side: one
step of the first is answered by some steps of the second, from the place that corresponds.

* `MatchFailure.place` — where code for an instruction starts behind the replacement;
* `MatchFailure.exchanged` — what is at which place;
* `step_corresponds` — a step of the first code is answered by steps of the second;
* `replaceIn_corresponds` — the two codes correspond all the way, whatever they do.
-/

namespace Downlevel

open Std (HashMap)

/-! ## Places -/

namespace MatchFailure

/-- Code with the exception replaced. -/
def exchange (code : Code) : Code :=
  { code with instructions := code.instructions.flatMap replaceEntry }

/-- The index at which the code in the place of the instruction at an index starts. -/
def place (code : Code) (index : Nat) : Nat :=
  ((code.instructions.take index).flatMap replaceEntry).length

/-- What is at which place in code with the exception replaced. -/
structure Exchanged (code code' : Code) (place : Nat → Nat) : Prop where
  first : place 0 = 0
  last : place code.instructions.length = code'.instructions.length
  increasing {index : Nat} (h : index < code.instructions.length) : place index < place (index + 1)
  /-- An instruction that is not about the exception stays as it is, with its label. -/
  kept {index : Nat} {entry : Labelled} (h : code.instructions[index]? = some entry)
    (habout : isAbout entry.instruction = false) :
    code'.instructions[place index]? = some entry ∧ place (index + 1) = place index + 1
  /-- The first of the instructions that take the place of one has its label, the others none. -/
  replaced {index : Nat} {entry : Labelled} (h : code.instructions[index]? = some entry)
    (habout : isAbout entry.instruction = true) :
    ∃ first rest, replace entry.instruction = first :: rest ∧
      (code'.instructions.drop (place index)).take (place (index + 1) - place index) =
        ⟨entry.label, first⟩ :: rest.map Instruction.plain
  labels (label : Label) : code'.labelIndices[label]? = code.labelIndices[label]?.map place
  exceptions : code'.exceptions = code.exceptions
  lastLabel : code'.lastLabel = code.lastLabel

section Places

variable {code : Code} {index : Nat} {entry : Labelled}

/-- Something takes the place of an entry. -/
theorem replaceEntry_eq (entry : Labelled) : ∃ first rest,
    replaceEntry entry = ⟨entry.label, first⟩ :: rest.map Instruction.plain ∧
      (isAbout entry.instruction = true → replace entry.instruction = first :: rest) := by
  unfold replaceEntry
  by_cases habout : isAbout entry.instruction = true
  · rw [if_pos habout]
    cases hreplace : replace entry.instruction with
    | nil => exact absurd hreplace (replace_ne_nil entry.instruction)
    | cons first rest => exact ⟨first, rest, rfl, fun _ => rfl⟩
  · rw [if_neg habout]
    exact ⟨entry.instruction, [], rfl, fun h => absurd h habout⟩

/-- An entry that is not about the exception stays. -/
theorem replaceEntry_of_not_isAbout (h : isAbout entry.instruction = false) :
    replaceEntry entry = [entry] := by
  rw [replaceEntry, if_neg (Bool.eq_false_iff.mp h)]

/-- What takes the place of an entry that is about the exception. -/
theorem map_instruction_replaceEntry (h : isAbout entry.instruction = true) :
    (replaceEntry entry).map Labelled.instruction = replace entry.instruction := by
  obtain ⟨first, rest, hentry, hreplace⟩ := replaceEntry_eq entry
  rw [hentry, hreplace h, List.map_cons, List.map_map]
  exact congrArg _ (List.map_id rest)

/-- One instruction takes the place of an entry that is about the exception. -/
theorem replaceEntry_single (h : isAbout entry.instruction = true) {instruction : Instruction}
    (hreplace : replace entry.instruction = [instruction]) :
    replaceEntry entry = [⟨entry.label, instruction⟩] := by
  rw [replaceEntry, if_pos h, hreplace]
  rfl

/-- What is about the exception creates it or calls one of its constructors. -/
theorem isAbout_cases {instruction : Instruction} (h : isAbout instruction = true) :
    instruction = .new exception ∨ ∃ descriptor onInterface,
      instruction = .invokespecial ⟨exception, MethodName.constructor, descriptor⟩ onInterface := by
  cases instruction with
  | new name =>
      obtain rfl : name = exception := of_decide_eq_true h
      exact .inl rfl
  | invokespecial target onInterface =>
      obtain ⟨owner, name, descriptor⟩ := target
      simp only [isAbout, Bool.and_eq_true, decide_eq_true_eq] at h
      obtain ⟨rfl, rfl⟩ := h
      exact .inr ⟨descriptor, onInterface, rfl⟩
  | _ => cases h

/-- The place behind what takes the place of an entry. -/
theorem place_succ (h : code.instructions[index]? = some entry) :
    place code (index + 1) = place code index + (replaceEntry entry).length := by
  simp [place, List.take_add_one, h]

/-- Places are in the order of instructions. -/
theorem place_mono (code : Code) : Monotone (place code) := by
  refine monotone_nat_of_le_succ ?_
  intro index
  cases h : code.instructions[index]? with
  | none => simp [place, List.take_add_one, h]
  | some entry => exact Nat.le.intro (place_succ h).symm

/-- The place behind is another one. -/
theorem place_lt (h : code.instructions[index]? = some entry) :
    place code index < place code (index + 1) := by
  obtain ⟨first, rest, hentry, -⟩ := replaceEntry_eq entry
  rw [place_succ h, hentry, List.length_cons]
  omega

/-- What takes the place of an entry stands at its place. -/
theorem exchange_split (h : code.instructions[index]? = some entry) : ∃ before after,
    (exchange code).instructions = before ++ replaceEntry entry ++ after ∧
      before.length = place code index := by
  obtain ⟨hindex, hentry⟩ := List.getElem?_eq_some_iff.mp h
  refine ⟨(code.instructions.take index).flatMap replaceEntry,
    (code.instructions.drop (index + 1)).flatMap replaceEntry, ?_, rfl⟩
  have hsplit : code.instructions =
      code.instructions.take index ++ entry :: code.instructions.drop (index + 1) := by
    rw [← hentry, ← List.drop_eq_getElem_cons hindex, List.take_append_drop]
  change code.instructions.flatMap replaceEntry = _
  conv => lhs; rw [hsplit]
  rw [List.flatMap_append, List.flatMap_cons, List.append_assoc]

/-- What takes the place of an entry is what stands up to the place behind. -/
theorem take_exchange (h : code.instructions[index]? = some entry) :
    ((exchange code).instructions.drop (place code index)).take
      (place code (index + 1) - place code index) = replaceEntry entry := by
  obtain ⟨before, after, hsplit, hlength⟩ := exchange_split h
  rw [place_succ h, Nat.add_sub_cancel_left, hsplit, ← hlength, List.append_assoc,
    List.drop_left, List.take_left]

/-- The first instruction that takes the place of one. -/
theorem getElem?_exchange (h : code.instructions[index]? = some entry) :
    (exchange code).instructions[place code index]? = (replaceEntry entry).head? := by
  obtain ⟨before, after, hsplit, hlength⟩ := exchange_split h
  obtain ⟨first, rest, hentry, -⟩ := replaceEntry_eq entry
  rw [hsplit, ← hlength, hentry, List.append_assoc, List.getElem?_append_right le_rfl,
    Nat.sub_self]
  rfl

/-- Instructions without labels only count. -/
theorem foldl_noteLabel_plain (instructions : List Instruction) (found : HashMap Label Nat × Nat) :
    (instructions.map Instruction.plain).foldl Code.noteLabel found =
      (found.1, found.2 + instructions.length) := by
  induction instructions generalizing found with
  | nil => rfl
  | cons instruction rest ih =>
      rw [List.map_cons, List.foldl_cons, ih, List.length_cons]
      simp only [Code.noteLabel, Instruction.plain]
      rw [Nat.add_right_comm, Nat.add_assoc]

/-- One more label is noted at the place to which its instruction moves. -/
theorem insert_exchange {f : Nat → Nat} {found found' : HashMap Label Nat}
    (h : ∀ label : Label, found'[label]? = found[label]?.map f) (noted : Label) (at' : Nat)
    (label : Label) : (found'.insert noted (f at'))[label]? = (found.insert noted at')[label]?.map f := by
  rw [HashMap.getElem?_insert, HashMap.getElem?_insert]
  split
  · rfl
  · exact h label

/-- Labels are noted at the places to which their instructions move. -/
theorem foldl_noteLabel_exchange {before entries : List Labelled}
    (hcode : code.instructions = before ++ entries) {found found' : HashMap Label Nat × Nat}
    (hindex : found.2 = before.length) (hindex' : found'.2 = place code before.length)
    (hfound : ∀ label : Label, found'.1[label]? = found.1[label]?.map (place code)) :
    (∀ label : Label, ((entries.flatMap replaceEntry).foldl Code.noteLabel found').1[label]? =
        (entries.foldl Code.noteLabel found).1[label]?.map (place code)) ∧
      ((entries.flatMap replaceEntry).foldl Code.noteLabel found').2 =
        place code (entries.foldl Code.noteLabel found).2 := by
  induction entries generalizing before found found' with
  | nil => exact ⟨hfound, hindex'.trans (congrArg _ hindex.symm)⟩
  | cons entry rest ih =>
      have hentry : code.instructions[before.length]? = some entry := by
        rw [hcode, List.getElem?_append_right le_rfl, Nat.sub_self]
        rfl
      have hsucc := place_succ hentry
      obtain ⟨first, more, hreplaced, -⟩ := replaceEntry_eq entry
      have hsplit : code.instructions = (before ++ [entry]) ++ rest := by
        rw [hcode, List.append_assoc, List.singleton_append]
      rw [List.flatMap_cons, List.foldl_append, hreplaced, List.foldl_cons, List.foldl_cons,
        foldl_noteLabel_plain]
      have hsnd : ∀ (found : HashMap Label Nat × Nat) (entry : Labelled),
          (Code.noteLabel found entry).2 = found.2 + 1 := by
        intro found entry
        unfold Code.noteLabel
        split <;> rfl
      refine ih hsplit ?_ ?_ ?_
      · rw [hsnd, hindex, List.length_append]
        rfl
      · rw [hreplaced, List.length_cons, List.length_map] at hsucc
        rw [List.length_append, List.length_singleton, hsucc, hsnd, hindex']
        omega
      · intro label
        cases hlabel : entry.label with
        | none =>
            simp only [Code.noteLabel, hlabel]
            exact hfound label
        | some noted =>
            simp only [Code.noteLabel, hlabel, hindex, hindex']
            exact insert_exchange hfound noted before.length label

/-- **Labels denote the places to which their instructions move.** -/
theorem labelIndices_exchange (code : Code) (label : Label) :
    (exchange code).labelIndices[label]? = code.labelIndices[label]?.map (place code) := by
  have hempty : ∀ label : Label, (∅ : HashMap Label Nat)[label]? =
      (∅ : HashMap Label Nat)[label]?.map (place code) := by
    intro label
    rw [HashMap.getElem?_empty]
    rfl
  obtain ⟨hfound, hindex⟩ := @foldl_noteLabel_exchange code [] code.instructions rfl (∅, 0) (∅, 0)
    rfl rfl hempty
  have hlast : (exchange code).lastLabel = code.lastLabel := rfl
  have hentries : (exchange code).instructions = code.instructions.flatMap replaceEntry := rfl
  rw [Code.labelIndices_eq, Code.labelIndices_eq, hlast, hentries]
  cases code.lastLabel with
  | none => exact hfound label
  | some last =>
      dsimp only
      rw [hindex]
      exact insert_exchange hfound last _ label

/-- **Replacing the exception moves instructions up**, with their labels, and leaves the tables as
they are. -/
theorem exchanged (code : Code) : Exchanged code (exchange code) (place code) where
  first := rfl
  last := by
    rw [place, List.take_length]
    rfl
  increasing := by
    intro index h
    exact place_lt (List.getElem?_eq_getElem h)
  kept := by
    intro index entry h habout
    rw [getElem?_exchange h, place_succ h, replaceEntry_of_not_isAbout habout]
    exact ⟨rfl, rfl⟩
  replaced := by
    intro index entry h habout
    obtain ⟨first, rest, hentry, hreplace⟩ := replaceEntry_eq entry
    exact ⟨first, rest, hreplace habout, (take_exchange h).trans hentry⟩
  labels := labelIndices_exchange code
  exceptions := rfl
  lastLabel := rfl

end Places

end MatchFailure

/-! ## Steps -/

namespace Exchange

open Machine
open MatchFailure (exchange place place_succ place_mono place_lt replaceEntry
  replaceEntry_of_not_isAbout replaceEntry_single map_instruction_replaceEntry isAbout_cases
  getElem?_exchange exchange_split labelIndices_exchange)

/-- What is asked of code and what is around it: the exception is an instance of the same classes as
the one that stands in, no other instruction and no handler asks for it, and all calls that the
machine does not know do the same to corresponding arguments and worlds. -/
structure Suitable (around : Surroundings) (code : Code) : Prop where
  lawful : IsLawful around
  asks {entry : Labelled} (h : entry ∈ code.instructions) : ¬ Asks entry.instruction
  catches {range : ExceptionRange} (h : range ∈ code.exceptions) :
    range.caught ≠ some MatchFailure.exception
  respects {entry : Labelled} (h : entry ∈ code.instructions)
    (habout : MatchFailure.isAbout entry.instruction = false) :
    Respects around entry.instruction entry.instruction
  /-- Constructors that the machine does not know are left to the program around as well. -/
  constructs {entry : Labelled} (h : entry ∈ code.instructions) {descriptor : MethodDescriptor}
    {onInterface : Bool} (hentry : entry.instruction =
      .invokespecial ⟨MatchFailure.exception, MethodName.constructor, descriptor⟩ onInterface)
    (hdescriptor : ¬ IsKnownDescriptor descriptor) :
    Respects around
      (.invokespecial ⟨MatchFailure.exception, MethodName.constructor, descriptor⟩ onInterface)
      (.invokespecial ⟨MatchFailure.replacement, MethodName.constructor, descriptor⟩ onInterface)

/-- Two codes are equally far.  Where the first one got stuck nothing is asked. -/
inductive StatusRel (place : Nat → Nat) (link : Link) : Status → Status → Prop where
  | running (index : Nat) {state state' : State} (h : StateRel place link state state') :
      StatusRel place link (.running index state) (.running (place index) state')
  | returned {value value' : Option Value} {world world' : World}
      (hvalue : Option.Rel (ValueRel link) value value') (hworld : WorldRel link world world') :
      StatusRel place link (.returned value world) (.returned value' world')
  | threw {exception exception' : Value} {world world' : World}
      (hexception : ValueRel link exception exception') (hworld : WorldRel link world world') :
      StatusRel place link (.threw exception world) (.threw exception' world')
  | stuck (status : Status) : StatusRel place link .stuck status

section Steps

variable {around : Surroundings} {code : Code} {link : Link} {index : Nat} {entry : Labelled}
  {state state' : State}

/-- Both codes go on at a label. -/
theorem enter_rel (h : StateRel (place code) link state state') (target : Label) :
    StatusRel (place code) link (enter code target state)
      (enter (exchange code) target state') := by
  unfold enter
  rw [labelIndices_exchange]
  cases code.labelIndices[target]? with
  | none => exact .stuck _
  | some index => exact .running index h

/-- A range covers what takes the place of the instructions that it covered. -/
theorem covers_exchange (h : code.instructions[index]? = some entry) (range : ExceptionRange) :
    covers (exchange code) (place code index) range = covers code index range := by
  have hlt := place_lt h
  have hstart : ∀ start, place code start ≤ place code index ↔ start ≤ index := by
    intro start
    refine ⟨fun hle => ?_, fun hle => place_mono code hle⟩
    by_contra hnot
    have hle' : place code (index + 1) ≤ place code start :=
      place_mono code (Nat.lt_of_not_le hnot)
    omega
  have hstop : ∀ stop, place code index < place code stop ↔ index < stop := by
    intro stop
    have := hstart stop
    omega
  unfold covers
  rw [labelIndices_exchange, labelIndices_exchange]
  cases code.labelIndices[range.start]? with
  | none => rfl
  | some start =>
      cases code.labelIndices[range.stop]? with
      | none => rfl
      | some stop => simp only [Option.map_some, hstart, hstop]

/-- Exceptions that are the same are caught alike. -/
theorem catcher?_exchange (hsuitable : Suitable around code)
    (h : code.instructions[index]? = some entry) {exception exception' : Value}
    {world world' : World} (hexception : ValueRel link exception exception')
    (hworld : WorldRel link world world') :
    catcher? around (exchange code) (place code index) exception' world' =
      catcher? around code index exception world := by
  have hcaught : ∀ range ∈ code.exceptions,
      (covers (exchange code) (place code index) range && range.caught.all fun name =>
          (world'.classOf? exception').any (around.isA · name)) =
        (covers code index range && range.caught.all fun name =>
          (world.classOf? exception).any (around.isA · name)) := by
    intro range hrange
    have hcatches := hsuitable.catches hrange
    rw [covers_exchange h]
    cases hname : range.caught with
    | none => rfl
    | some name =>
        have hne : name ≠ MatchFailure.exception := fun heq => hcatches (heq ▸ hname)
        rw [Option.all_some, Option.all_some, hsuitable.lawful.any_isA hne hworld hexception]
  unfold catcher?
  change code.exceptions.find? _ = _
  exact List.find?_congr hcaught

/-- Both codes go on behind what was done in corresponding places. -/
theorem resume_rel (hsuitable : Suitable around code) (h : code.instructions[index]? = some entry)
    (hplace : place code (index + 1) = place code index + 1)
    (hstate : StateRel (place code) link state state') {result result' : Except Stop (Next × State)}
    (hresult : ResultRel (place code) link (NextRel (place code)) result result') :
    ∃ more, link ≤ more ∧ StatusRel (place code) more (resume around code index state result)
      (resume around (exchange code) (place code index) state' result') := by
  cases hresult with
  | stuck result' => exact ⟨link, le_rfl, .stuck _⟩
  | threw hmore hexception hworld =>
      refine ⟨_, hmore, ?_⟩
      unfold resume
      dsimp only
      rw [catcher?_exchange hsuitable h hexception hworld]
      split
      · refine enter_rel ?_ _
        exact ⟨.cons (.value hexception) .nil,
          fun slot => CellRel.mono_option hmore (hstate.locals slot), hworld⟩
      · exact .threw hexception hworld
  | ok hmore hnext hlater =>
      refine ⟨_, hmore, ?_⟩
      cases hnext with
      | behind =>
          change StatusRel _ _ (.running (index + 1) _) (.running (place code index + 1) _)
          rw [← hplace]
          exact .running (index + 1) hlater
      | jump target => exact enter_rel hlater target
      | back index => exact .running index hlater
      | finish hvalue => exact .returned hvalue hlater.world

/-- A step is that of the instruction. -/
theorem step_eq (h : code.instructions[index]? = some entry) (state : State) :
    step around code (.running index state) =
      resume around code index state (perform around index entry.instruction state) := by
  rw [step, h]

/-- Where an instruction takes the place of one and does the same, a step is answered by a step. -/
theorem step_single (hsuitable : Suitable around code) (h : code.instructions[index]? = some entry)
    {instruction : Instruction} (hentry : replaceEntry entry = [⟨entry.label, instruction⟩])
    (hstate : StateRel (place code) link state state')
    (hsim : Sim (place code) link (NextRel (place code)) (perform around index entry.instruction)
      (perform around (place code index) instruction)) :
    ∃ more, link ≤ more ∧ StatusRel (place code) more (step around code (.running index state))
      (step around (exchange code) (.running (place code index) state')) := by
  have hplace : place code (index + 1) = place code index + 1 := by
    rw [place_succ h, hentry]
    rfl
  have hfetch : (exchange code).instructions[place code index]? =
      some ⟨entry.label, instruction⟩ := by
    rw [getElem?_exchange h, hentry]
    rfl
  rw [step_eq h, step_eq hfetch]
  exact resume_rel hsuitable h hplace hstate (hsim state state' hstate)

/-- Instructions that stand one after the other are performed in as many steps. -/
theorem iterate_performAll {instructions : List Instruction}
    (hstands : Running.Stands code index instructions) {later : State}
    (h : performAll around index instructions state = .ok ((), later)) :
    (step around code)^[instructions.length] (.running index state) =
      .running (index + instructions.length) later := by
  induction instructions generalizing index state with
  | nil =>
      cases h
      rfl
  | cons instruction rest ih =>
      obtain ⟨⟨entry, hfetch, rfl⟩, hrest⟩ := hstands.cons
      obtain ⟨middle, hperform, hall⟩ := performAll_cons_ok h
      have hstep : step around code (.running index state) = .running (index + 1) middle := by
        rw [step_eq hfetch, hperform]
        rfl
      rw [List.length_cons, Function.iterate_succ_apply, hstep, ih hrest hall, Nat.add_right_comm,
        Nat.add_assoc]

/-- Where several instructions take the place of a constructor of the exception, a step is answered
by as many steps. -/
theorem step_constructor (h : code.instructions[index]? = some entry)
    {descriptor : MethodDescriptor} {onInterface : Bool}
    (hentry : entry.instruction =
      .invokespecial ⟨MatchFailure.exception, MethodName.constructor, descriptor⟩ onInterface)
    (hdescriptor : IsKnownDescriptor descriptor)
    (hstate : StateRel (place code) link state state') :
    StatusRel (place code) link (step around code (.running index state))
      ((step around (exchange code))^[(replaceEntry entry).length]
        (.running (place code index) state')) := by
  have habout : MatchFailure.isAbout entry.instruction = true := by
    rw [hentry]
    rfl
  have hreplaced : (replaceEntry entry).map Labelled.instruction =
      MatchFailure.constructorCall descriptor onInterface := by
    rw [map_instruction_replaceEntry habout, hentry]
    rfl
  obtain ⟨before, after, hsplit, hlength⟩ := exchange_split h
  have hstands := Running.Stands.of_append hsplit
  rw [hreplaced, hlength] at hstands
  rw [step_eq h, hentry]
  rcases constructorCall_exchanges around hdescriptor onInterface index (place code index) hstate with
    hstuck | ⟨later, later', hperform, hall, hlater⟩
  · rw [hstuck]
    exact .stuck _
  · have hcount : (replaceEntry entry).length =
        (MatchFailure.constructorCall descriptor onInterface).length := by
      rw [← hreplaced, List.length_map]
    rw [hperform, hcount, iterate_performAll hstands hall, ← hcount, ← place_succ h]
    exact .running (index + 1) hlater

/-- What takes the place of the creation of the exception does the same. -/
theorem sim_new (around : Surroundings) (place : Nat → Nat) (index index' : Nat) :
    Sim place link (NextRel place) (perform around index (.new MatchFailure.exception))
      (perform around index' (.new MatchFailure.replacement)) := by
  have hfresh : ObjectRel link (.fresh MatchFailure.exception .created)
      (.fresh MatchFailure.replacement .created) := objectRel_fresh MatchFailure.exception .created
  refine .bind (sim_create hfresh) ?_
  intro more value value' _ hvalue
  exact sim_behind (sim_pushValue hvalue)

/-- A step at an instruction is answered by steps at what takes its place. -/
theorem step_entry (hsuitable : Suitable around code) (h : code.instructions[index]? = some entry)
    (hstate : StateRel (place code) link state state') :
    ∃ steps more, 0 < steps ∧ link ≤ more ∧ StatusRel (place code) more
      (step around code (.running index state))
      ((step around (exchange code))^[steps] (.running (place code index) state')) := by
  have hmem := List.mem_of_getElem? h
  -- where one instruction does the same as the one whose place it takes, one step is enough
  have hsingle : ∀ instruction, replaceEntry entry = [⟨entry.label, instruction⟩] →
      Sim (place code) link (NextRel (place code)) (perform around index entry.instruction)
        (perform around (place code index) instruction) →
      ∃ steps more, 0 < steps ∧ link ≤ more ∧ StatusRel (place code) more
        (step around code (.running index state))
        ((step around (exchange code))^[steps] (.running (place code index) state')) := by
    intro instruction hentry hsim
    obtain ⟨more, hmore, hrel⟩ := step_single hsuitable h hentry hstate hsim
    exact ⟨1, more, Nat.one_pos, hmore, hrel⟩
  cases habout : MatchFailure.isAbout entry.instruction with
  | false =>
      have hentry := replaceEntry_of_not_isAbout habout
      have hplace : place code (index + 1) = place code index + 1 := by
        rw [place_succ h, hentry]
        rfl
      exact hsingle entry.instruction hentry (sim_perform hsuitable.lawful habout
        (hsuitable.asks hmem) (hsuitable.respects hmem habout) hplace)
  | true =>
      rcases isAbout_cases habout with hnew | ⟨descriptor, onInterface, hconstructor⟩
      · have hentry : replaceEntry entry = [⟨entry.label, .new MatchFailure.replacement⟩] := by
          refine replaceEntry_single habout ?_
          rw [hnew]
          rfl
        refine hsingle _ hentry ?_
        rw [hnew]
        exact sim_new around (place code) index (place code index)
      · by_cases hdescriptor : IsKnownDescriptor descriptor
        · have hlength : 0 < (replaceEntry entry).length := by
            have := place_lt h
            rw [place_succ h] at this
            omega
          exact ⟨_, link, hlength, le_rfl, step_constructor h hconstructor hdescriptor hstate⟩
        · have hcall : MatchFailure.constructorCall descriptor onInterface =
              [.invokespecial
                ⟨MatchFailure.replacement, MethodName.constructor, descriptor⟩ onInterface] := by
            obtain ⟨hbare, hmessage, hcause⟩ := not_or.mp hdescriptor |>.imp_right not_or.mp
            rw [MatchFailure.constructorCall, if_neg hbare, if_neg hmessage, if_neg hcause]
          have hentry := replaceEntry_single habout ((congrArg _ hconstructor).trans hcall)
          refine hsingle _ hentry ?_
          rw [hconstructor]
          exact sim_callSpecial (hsuitable.constructs hmem hconstructor hdescriptor) rfl rfl
            (if_pos rfl).symm rfl fun _ => given?_eq_none hdescriptor

/-- **A step of the first code is answered by steps of the second.** -/
theorem step_corresponds (hsuitable : Suitable around code) {status status' : Status}
    (hstatus : StatusRel (place code) link status status') :
    ∃ steps more, 0 < steps ∧ link ≤ more ∧ StatusRel (place code) more (step around code status)
      ((step around (exchange code))^[steps] status') := by
  cases hstatus with
  | returned hvalue hworld => exact ⟨1, link, Nat.one_pos, le_rfl, .returned hvalue hworld⟩
  | threw hexception hworld => exact ⟨1, link, Nat.one_pos, le_rfl, .threw hexception hworld⟩
  | stuck status => exact ⟨1, link, Nat.one_pos, le_rfl, .stuck _⟩
  | running index hstate =>
      cases h : code.instructions[index]? with
      | none =>
          refine ⟨1, link, Nat.one_pos, le_rfl, ?_⟩
          rw [step, h]
          exact .stuck _
      | some entry =>
          obtain ⟨steps, more, hsteps, hmore, hrel⟩ := step_entry hsuitable h hstate
          exact ⟨steps, more, hsteps, hmore, hrel⟩

/-- **Two codes that correspond go on to correspond, all the way.** -/
theorem run_corresponds (hsuitable : Suitable around code) {start start' : Status}
    (hstart : StatusRel (place code) link start start') :
    ∃ (pace : Nat → Nat) (links : Nat → Link), pace 0 = 0 ∧ links 0 = link ∧ StrictMono pace ∧
      Monotone links ∧ ∀ steps, StatusRel (place code) (links steps)
        ((step around code)^[steps] start)
        ((step around (exchange code))^[pace steps] start') := by
  -- each step of the first code is answered from where the second one has got to
  have hnext : ∀ reached : Nat × Nat × Link, ∃ later : Nat × Nat × Link,
      StatusRel (place code) reached.2.2 ((step around code)^[reached.1] start)
        ((step around (exchange code))^[reached.2.1] start') →
      later.1 = reached.1 + 1 ∧ reached.2.1 < later.2.1 ∧ reached.2.2 ≤ later.2.2 ∧
        StatusRel (place code) later.2.2 ((step around code)^[later.1] start)
          ((step around (exchange code))^[later.2.1] start') := by
    rintro ⟨steps, answered, reached⟩
    by_cases hrel : StatusRel (place code) reached ((step around code)^[steps] start)
      ((step around (exchange code))^[answered] start')
    · obtain ⟨count, more, hcount, hmore, hlater⟩ := step_corresponds hsuitable hrel
      refine ⟨(steps + 1, count + answered, more), fun _ => ⟨rfl, ?_, hmore, ?_⟩⟩
      · exact Nat.lt_add_of_pos_left hcount
      · rw [Function.iterate_succ_apply', Function.iterate_add_apply]
        exact hlater
    · exact ⟨(steps, answered, reached), fun h => absurd h hrel⟩
  choose next hnext using hnext
  let reached (steps : Nat) : Nat × Nat × Link := next^[steps] (0, 0, link)
  have hreached : ∀ steps, (reached steps).1 = steps ∧
      StatusRel (place code) (reached steps).2.2 ((step around code)^[(reached steps).1] start)
        ((step around (exchange code))^[(reached steps).2.1] start') := by
    intro steps
    induction steps with
    | zero => exact ⟨rfl, hstart⟩
    | succ steps ih =>
        obtain ⟨hcount, -, -, hrel⟩ := hnext (reached steps) ih.2
        have hsucc : reached (steps + 1) = next (reached steps) :=
          Function.iterate_succ_apply' next steps _
        rw [hsucc]
        exact ⟨hcount.trans (congrArg Nat.succ ih.1), hrel⟩
  have hstep : ∀ steps, (reached steps).2.1 < (reached (steps + 1)).2.1 ∧
      (reached steps).2.2 ≤ (reached (steps + 1)).2.2 := by
    intro steps
    obtain ⟨-, hpace, hlink, -⟩ := hnext (reached steps) (hreached steps).2
    have hsucc : reached (steps + 1) = next (reached steps) :=
      Function.iterate_succ_apply' next steps _
    rw [hsucc]
    exact ⟨hpace, hlink⟩
  refine ⟨fun steps => (reached steps).2.1, fun steps => (reached steps).2.2, rfl, rfl,
    strictMono_nat_of_lt_succ fun steps => (hstep steps).1,
    monotone_nat_of_le_succ fun steps => (hstep steps).2, ?_⟩
  intro steps
  have hrel := (hreached steps).2
  rw [(hreached steps).1] at hrel
  exact hrel

end Steps

/-- **Replacing the exception keeps the meaning of code.** All other instructions stay, in order and
with their labels, the labels denote the places to which their instructions move, and the table of
handlers is the same.  Started in states that correspond, the two codes correspond step by step, and
objects that correspond once go on to do so. -/
theorem replaceIn_corresponds (method : Method) {code : Code} (h : method.code = some code) :
    (MatchFailure.replaceIn method).code = some (exchange code) ∧
      MatchFailure.Exchanged code (exchange code) (place code) ∧
      ∀ around, Suitable around code → ∀ link start start',
        StatusRel (place code) link start start' →
        ∃ (pace : Nat → Nat) (links : Nat → Link), pace 0 = 0 ∧ links 0 = link ∧
          StrictMono pace ∧ Monotone links ∧ ∀ steps, StatusRel (place code) (links steps)
            ((step around code)^[steps] start)
            ((step around (exchange code))^[pace steps] start') := by
  refine ⟨?_, MatchFailure.exchanged code, ?_⟩
  · rw [MatchFailure.replaceIn, h]
    rfl
  · intro around hsuitable link start start' hstart
    exact run_corresponds hsuitable hstart

/-! A method that makes an exception of the message in its variable, throws it, catches it and
returns it. -/

/-- Surroundings in which nothing is done, and the two exceptions are instances of the second. -/
def calm : Surroundings where
  isA cls name := cls = name || (cls = MatchFailure.exception && name = MatchFailure.replacement)
  declared := id
  calculate _ _ := none
  kept _ number := number
  call _ _ world := .returned none world

/-- The code of the method. -/
def failingCode : Code where
  instructions := [⟨some ⟨0⟩, .new MatchFailure.exception⟩, ⟨none, .op .dup⟩,
    ⟨none, .load .reference 0⟩, ⟨none, .op .aconstNull⟩,
    ⟨none, .invokespecial ⟨MatchFailure.exception, MethodName.constructor,
      "(Ljava/lang/String;Ljava/lang/Throwable;)V"⟩ false⟩,
    ⟨none, .op .athrow⟩, ⟨some ⟨1⟩, .op .areturn⟩]
  exceptions := [⟨⟨0⟩, ⟨1⟩, ⟨1⟩, some MatchFailure.replacement⟩]

/-- The method. -/
def failingMethod : Method where
  access := { isStatic := true }
  name := "fail"
  descriptor := "(Ljava/lang/String;)Ljava/lang/Object;"
  code := some failingCode

/-- The state before the method. -/
def failingState : State where
  stack := []
  locals _ := some (.value (.constant (.string (JavaString.ofString "why"))))
  world := ⟨[], fun _ => .null⟩

/-- The code does nothing that depends on the exception's class. -/
theorem suitable_calm : Suitable calm failingCode where
  lawful := by
    intro name hname
    have hne : MatchFailure.exception ≠ name := hname.symm
    have hother : MatchFailure.replacement ≠ MatchFailure.exception := by decide
    simp [calm, hne, hother, eq_comm]
  asks := by
    intro entry hentry hasks
    simp only [failingCode, List.mem_cons, List.not_mem_nil, or_false] at hentry
    rcases hentry with rfl | rfl | rfl | rfl | rfl | rfl | rfl <;> cases hasks
  catches := by
    intro range hrange
    obtain rfl := List.mem_singleton.mp hrange
    decide
  respects := by
    intro entry hentry habout link arguments arguments' world world' _ hworld
    exact .returned le_rfl .none hworld
  constructs := by
    intro entry hentry descriptor onInterface hconstructor hdescriptor link arguments arguments'
      world world' _ hworld
    exact .returned le_rfl .none hworld

/-- The method returns the exception that it has made; with the exception replaced it does
alike. -/
theorem replaceIn_corresponds_failing :
    failingMethod.code = some failingCode ∧ Suitable calm failingCode ∧
      StatusRel (place failingCode) (fun _ _ => False) (.running 0 failingState)
        (.running 0 failingState) ∧
      (step calm failingCode)^[7] (.running 0 failingState) =
        .returned (some (.object 0)) ⟨[.failure MatchFailure.exception
          (.given (some (JavaString.ofString "why"))) (some .null)], fun _ => .null⟩ ∧
      ∃ (pace : Nat → Nat) (links : Nat → Link), pace 0 = 0 ∧ links 0 = (fun _ _ => False) ∧
        StrictMono pace ∧ Monotone links ∧ ∀ steps, StatusRel (place failingCode) (links steps)
          ((step calm failingCode)^[steps] (.running 0 failingState))
          ((step calm (exchange failingCode))^[pace steps] (.running 0 failingState)) := by
  have hstate : StateRel (place failingCode) (fun _ _ => False) failingState failingState :=
    ⟨.nil, fun _ => .some (.value (.constant _)), ⟨False.elim, False.elim, fun _ => .null⟩⟩
  have hstart : StatusRel (place failingCode) (fun _ _ => False) (.running 0 failingState)
      (.running 0 failingState) := .running 0 hstate
  obtain ⟨-, -, hruns⟩ := replaceIn_corresponds failingMethod rfl
  exact ⟨rfl, suitable_calm, hstart, by cbv, hruns calm suitable_calm _ _ _ hstart⟩

end Exchange

end Downlevel
