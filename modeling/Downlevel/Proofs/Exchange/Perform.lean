import Downlevel.Proofs.Exchange.Correspondence

/-!
# Instructions on corresponding states

An instruction that neither creates the exception, nor calls a constructor of it, nor asks for its
class does the same to states that correspond.  That is shown piece by piece, the way instructions
are put together of pieces; calls that the machine does not know are assumed to do so.

* `Asks` — the instructions whose effect depends on the name of the exception;
* `IsLawful` — the exception is an instance of the same other classes as the one that stands in;
* `sim_perform` — every other instruction does the same to corresponding states.
-/

namespace Downlevel

namespace Exchange

open Machine

/-- An instruction asks for the class of the exception: it tests whether an object is of the class,
or it makes arrays for objects of the class. -/
inductive Asks : Instruction → Prop where
  | checkcast : Asks (.checkcast MatchFailure.exception)
  | instanceof : Asks (.instanceof MatchFailure.exception)
  | anewarray : Asks (.anewarray MatchFailure.exception)
  | multianewarray {name : ClassName} {dimensions : UInt8} {depth : Nat}
      (hdepth : depth < dimensions.toNat) (h : ¬ IsNeutral (elementDescriptor^[depth] name)) :
      Asks (.multianewarray name dimensions)

/-- The exception is an instance of the same other classes as the one that stands in for it. -/
def IsLawful (around : Surroundings) : Prop :=
  ∀ name ≠ MatchFailure.exception,
    around.isA MatchFailure.replacement name = around.isA MatchFailure.exception name

variable {around : Surroundings} {link : Link} {place : Nat → Nat} {α β : Type}
  {R : Link → α → β → Prop}

/-- What stands in is an instance of the same other classes. -/
theorem IsLawful.isA_standIn (h : IsLawful around) {name : ClassName}
    (hname : name ≠ MatchFailure.exception) (cls : ClassName) :
    around.isA (standIn cls) name = around.isA cls name := by
  by_cases hcls : cls = MatchFailure.exception
  · obtain rfl := hcls
    exact h name hname
  · rw [standIn_of_ne hcls]

/-- Values that are the same are instances of the same other classes. -/
theorem IsLawful.any_isA (h : IsLawful around) {name : ClassName}
    (hname : name ≠ MatchFailure.exception) {world world' : World} {value value' : Value}
    (hworld : WorldRel link world world') (hvalue : ValueRel link value value') :
    (world'.classOf? value').any (around.isA · name) =
      (world.classOf? value).any (around.isA · name) := by
  rw [hworld.classOf?_eq hvalue]
  cases world.classOf? value with
  | none => rfl
  | some cls => exact h.isA_standIn hname cls

/-! ## Small pieces of work -/

section Pieces

/-- New objects are the same. -/
theorem objectRel_fresh (cls : ClassName) (progress : Progress) :
    ObjectRel link (.fresh cls progress) (.fresh (standIn cls) progress) :=
  .record cls progress fun field => valueRel_zero field.descriptor

/-- Throwing a new exception of another class. -/
theorem sim_raise {cls : ClassName} (hcls : cls ≠ MatchFailure.exception) :
    Sim place link R (raise cls : Act α) (raise cls : Act β) := by
  have hfresh : ObjectRel link (.fresh cls .ready) (.fresh (standIn cls) .ready) :=
    objectRel_fresh cls .ready
  rw [standIn_of_ne hcls] at hfresh
  refine .bind (sim_create hfresh) ?_
  intro more exception exception' _ hexception
  exact sim_throwing hexception

/-- Taking a value. -/
theorem sim_popValue : Sim place link ValueRel popValue popValue := by
  refine .bind sim_pop ?_
  intro more cell cell' _ hcell
  cases hcell with
  | value hvalue => exact .done hvalue
  | place index => exact sim_stuck _

/-- Taking a number. -/
theorem sim_popNumber : Sim place link (fun _ => Eq) popNumber popNumber := by
  refine .bind sim_popValue ?_
  intro more value value' _ hvalue
  cases hvalue with
  | number n => exact .done rfl
  | null | constant c | object h => exact sim_stuck _

/-- Taking a number of 32 bits. -/
theorem sim_popInt : Sim place link (fun _ => Eq) popInt popInt := by
  refine .bind sim_popNumber ?_
  rintro more number _ _ rfl
  cases number with
  | int n => exact .done rfl
  | long n | float n | double n => exact sim_stuck _

/-- Taking a value of a kind. -/
theorem sim_popKind (kind : ValueKind) :
    Sim place link ValueRel (popKind kind) (popKind kind) := by
  refine .bind sim_popValue ?_
  intro more value value' _ hvalue
  rw [hvalue.kind_eq]
  exact .ite Iff.rfl (fun _ => .done hvalue) fun _ => sim_stuck _

/-- Taking a reference to an object. -/
theorem sim_popObject : Sim place link ValueRel popObject popObject := by
  refine .bind (sim_popKind .reference) ?_
  intro more value value' _ hvalue
  exact .ite hvalue.null_iff (fun _ => sim_raise (by decide)) fun _ => .done hvalue

/-- Taking numbers. -/
theorem sim_popNumbers (count : Nat) :
    Sim place link (fun _ => Eq) (popNumbers count) (popNumbers count) := by
  induction count generalizing link with
  | zero => exact .done rfl
  | succ count ih =>
      refine .bind sim_popNumber ?_
      rintro more number _ _ rfl
      refine .bind ih ?_
      rintro most numbers _ _ rfl
      exact .done rfl

/-- Taking arguments. -/
theorem sim_popArguments (types : List JavaType) :
    Sim place link (fun more => List.Forall₂ (ValueRel more)) (popArguments types)
      (popArguments types) := by
  induction types generalizing link with
  | nil => exact .done .nil
  | cons type rest ih =>
      refine .bind (sim_popKind type.kind) ?_
      intro more value value' _ hvalue
      refine .bind ih ?_
      intro most values values' hmore hvalues
      exact .done (List.rel_append hvalues (.cons (hvalue.mono hmore) .nil))

/-- Stacks that are split into parts that are the same. -/
def SplitRel (place : Nat → Nat) (link : Link) (split split' : List Cell × List Cell) : Prop :=
  List.Forall₂ (CellRel place link) split.1 split'.1 ∧
    List.Forall₂ (CellRel place link) split.2 split'.2

/-- One more cell that is the same in the first part. -/
theorem split_cons {cell cell' : Cell} {found found' : Option (List Cell × List Cell)}
    (hcell : CellRel place link cell cell') (hfound : Option.Rel (SplitRel place link) found found') :
    Option.Rel (SplitRel place link) (found.map fun (taken, rest) => (cell :: taken, rest))
      (found'.map fun (taken, rest) => (cell' :: taken, rest)) := by
  cases hfound with
  | some hsplit => exact .some ⟨.cons hcell hsplit.1, hsplit.2⟩
  | none => exact .none

/-- Stacks that are the same are split alike. -/
theorem splitSlots_rel (slots : Nat) {cells cells' : List Cell}
    (h : List.Forall₂ (CellRel place link) cells cells') :
    Option.Rel (SplitRel place link) (splitSlots slots cells) (splitSlots slots cells') := by
  induction slots, cells using splitSlots.induct generalizing cells' with
  | case1 cells =>
      rw [splitSlots, splitSlots]
      exact .some ⟨.nil, h⟩
  | case2 slots hslots =>
      cases h
      cases slots with
      | zero => exact absurd rfl hslots
      | succ slots => exact .none
  | case3 cell rest hwide =>
      obtain _ | ⟨hcell, hrest⟩ := h
      simp only [splitSlots, hcell.kind_eq, if_pos hwide, if_true]
      exact .none
  | case4 cell rest count hwide hcount ih =>
      obtain _ | ⟨hcell, hrest⟩ := h
      simp only [splitSlots, hcell.kind_eq, if_pos hwide, if_neg hcount]
      exact split_cons hcell (ih hrest)
  | case5 cell rest count hwide ih =>
      obtain _ | ⟨hcell, hrest⟩ := h
      simp only [splitSlots, hcell.kind_eq, if_neg hwide]
      exact split_cons hcell (ih hrest)

/-- Taking slots. -/
theorem sim_popSlots (slots : Nat) :
    Sim place link (fun more => List.Forall₂ (CellRel place more)) (popSlots slots)
      (popSlots slots) := by
  intro state state' hstate
  have hsplit := splitSlots_rel slots hstate.stack
  unfold popSlots
  generalize splitSlots slots state.stack = found, splitSlots slots state'.stack = found' at hsplit
  cases hsplit with
  | some hsplit => exact .ok le_rfl hsplit.1 ⟨hsplit.2, hstate.locals, hstate.world⟩
  | none => exact .stuck _

/-- Putting things on the stack. -/
theorem sim_pushAll {cells cells' : List Cell}
    (h : List.Forall₂ (CellRel place link) cells cells') :
    Sim place link (fun _ _ _ => True) (pushAll cells) (pushAll cells') :=
  fun _ _ hstate =>
    .ok le_rfl trivial ⟨List.rel_append h hstate.stack, hstate.locals, hstate.world⟩

/-- Going on behind work that gives nothing. -/
theorem sim_behind {act act' : Act Unit} (h : Sim place link (fun _ _ _ => True) act act') :
    Sim place link (NextRel place) (do act; pure .behind) (do act'; pure .behind) :=
  .bind h fun _ _ _ _ _ => .done .behind

end Pieces

/-! ## Arrays -/

section Arrays

/-- Elements at one place of lists that are the same. -/
theorem forall₂_getElem? {values values' : List Value}
    (h : List.Forall₂ (ValueRel link) values values') (index : Nat) :
    Option.Rel (ValueRel link) values[index]? values'[index]? := by
  induction h generalizing index with
  | nil => exact .none
  | cons hvalue hrest ih =>
      cases index with
      | zero => exact .some hvalue
      | succ index => exact ih index

/-- Lists that are the same stay so when one element is changed. -/
theorem forall₂_set {values values' : List Value} {value value' : Value}
    (h : List.Forall₂ (ValueRel link) values values') (hvalue : ValueRel link value value')
    (index : Nat) : List.Forall₂ (ValueRel link) (values.set index value)
      (values'.set index value') := by
  induction h generalizing index with
  | nil => exact .nil
  | cons hhead hrest ih =>
      cases index with
      | zero => exact .cons hvalue hrest
      | succ index => exact .cons hhead (ih index)

/-- Arrays that are the same. -/
structure ArrayRel (link : Link) (found found' : Nat × ClassName × List Value) : Prop where
  ids : link found.1 found'.1
  classes : found'.2.1 = found.2.1
  neutral : IsNeutral found.2.1
  elements : List.Forall₂ (ValueRel link) found.2.2 found'.2.2

/-- Looking at an array. -/
theorem sim_readArray {value value' : Value} (h : ValueRel link value value') :
    Sim place link ArrayRel (readArray value) (readArray value') := by
  cases h with
  | number n | null | constant c => exact sim_stuck _
  | object hlink =>
      refine .bind (sim_read hlink) ?_
      intro more object object' hmore hobject
      cases hobject with
      | array hcls helements => exact .done ⟨hmore _ _ hlink, rfl, hcls, helements⟩
      | record | text | failure | exchanged => exact sim_stuck _

/-- Getting an element. -/
theorem sim_getElement (kind : ValueKind) :
    Sim place link (fun _ _ _ => True) (getElement kind) (getElement kind) := by
  refine .bind sim_popInt ?_
  rintro _ index _ _ rfl
  refine .bind sim_popObject ?_
  intro _ array array' _ harray
  refine .bind (sim_readArray harray) ?_
  rintro more ⟨id, cls, elements⟩ ⟨id', cls', elements'⟩ _ ⟨-, -, -, helements⟩
  have hlength : elements'.length = elements.length := helements.length_eq.symm
  simp only [hlength]
  cases indexIn? elements.length index with
  | none => exact sim_raise (by decide)
  | some spot =>
      have hfound := forall₂_getElem? helements spot
      dsimp only at hfound ⊢
      generalize elements[spot]? = found, elements'[spot]? = found' at hfound
      cases hfound with
      | none => exact sim_stuck _
      | some hvalue =>
          dsimp only
          rw [hvalue.kind_eq]
          exact .ite Iff.rfl (fun _ => sim_pushValue hvalue) fun _ => sim_stuck _

/-- Arrays that are the same take the same values. -/
theorem accepted?_rel (hlawful : IsLawful around) {world world' : World} {cls : ClassName}
    (hcls : IsNeutral cls) (hworld : WorldRel link world world') {value value' : Value}
    (hvalue : ValueRel link value value') :
    Option.Rel (ValueRel link) (accepted? around world cls value)
      (accepted? around world' cls value') := by
  have hclass := hlawful.any_isA hcls.2 hworld hvalue
  cases hvalue with
  | number n => exact .some (.number _)
  | null => exact .some .null
  | constant c =>
      simp only [accepted?, hclass]
      split
      · exact .some (.constant c)
      · exact .none
  | object hlink =>
      simp only [accepted?, hclass]
      split
      · exact .some (.object hlink)
      · exact .none

/-- Putting an element. -/
theorem sim_putElement (hlawful : IsLawful around) (kind : ValueKind) :
    Sim place link (fun _ _ _ => True) (putElement around kind) (putElement around kind) := by
  refine .bind (sim_popKind kind) ?_
  intro _ value value' _ hvalue
  refine .bind sim_popInt ?_
  rintro _ index _ hindex rfl
  refine .bind sim_popObject ?_
  intro _ array array' harrays harray
  refine .bind (sim_readArray harray) ?_
  rintro more ⟨id, cls, elements⟩ ⟨id', _, elements'⟩ hread ⟨hlink, rfl, hneutral, helements⟩
  have hlength : elements'.length = elements.length := helements.length_eq.symm
  simp only [hlength]
  cases indexIn? elements.length index with
  | none => exact sim_raise (by decide)
  | some spot =>
      refine .bind sim_world ?_
      intro most world world' hmost hworld
      have hmore := ((hindex.trans harrays).trans hread).trans hmost
      have haccepted := accepted?_rel hlawful hneutral hworld (hvalue.mono hmore)
      dsimp only at haccepted ⊢
      generalize accepted? around world _ value = found,
        accepted? around world' _ value' = found' at haccepted
      cases haccepted with
      | none => exact sim_raise (by decide)
      | some helement =>
          exact sim_write (hmost _ _ hlink)
            (.array hneutral (forall₂_set (ValueRel.mono_list hmost helements) helement spot))

/-- Doing the same work again and again. -/
theorem sim_repeatedly {act : Act Value} (h : ∀ more, link ≤ more → Sim place more ValueRel act act)
    (count : Nat) : Sim place link (fun more => List.Forall₂ (ValueRel more)) (repeatedly act count)
      (repeatedly act count) := by
  induction count generalizing link with
  | zero => exact .done .nil
  | succ count ih =>
      refine .bind (h link le_rfl) ?_
      intro more value value' hmore hvalue
      refine .bind (ih fun most hmost => h most (hmore.trans hmost)) ?_
      intro most values values' hmost hvalues
      exact .done (.cons (hvalue.mono hmost) hvalues)

/-- Making arrays, none of them for the exception. -/
theorem sim_createArrays {descriptor : FieldDescriptor} {lengths : List Nat}
    (h : ∀ depth < lengths.length, IsNeutral (elementDescriptor^[depth] descriptor)) :
    Sim place link ValueRel (createArrays descriptor lengths)
      (createArrays descriptor lengths) := by
  induction lengths generalizing descriptor link with
  | nil => exact .done (valueRel_zero descriptor)
  | cons length rest ih =>
      have hrest : ∀ depth < rest.length,
          IsNeutral (elementDescriptor^[depth] (elementDescriptor descriptor)) := by
        intro depth hdepth
        exact h (depth + 1) (Nat.succ_lt_succ hdepth)
      refine .bind (sim_repeatedly (fun more _ => ih hrest) length) ?_
      intro more elements elements' _ helements
      exact sim_create (.array (h 0 (Nat.succ_pos _)) helements)

/-- Taking a length. -/
theorem sim_popLength : Sim place link (fun _ => Eq) popLength popLength := by
  refine .bind sim_popInt ?_
  rintro more length _ _ rfl
  exact .ite Iff.rfl (fun _ => sim_raise (by decide)) fun _ => .done rfl

/-- Taking lengths. -/
theorem sim_popLengths (count : Nat) :
    Sim place link (fun _ lengths lengths' => lengths = lengths' ∧ lengths.length = count)
      (popLengths count) (popLengths count) := by
  induction count generalizing link with
  | zero => exact .done ⟨rfl, rfl⟩
  | succ count ih =>
      refine .bind sim_popLength ?_
      rintro _ length _ _ rfl
      refine .bind ih ?_
      rintro _ lengths _ _ ⟨rfl, hlength⟩
      exact .done ⟨rfl, by rw [List.length_append, hlength]; rfl⟩

end Arrays

/-! ## Calls -/

section Calls

/-- Going on behind a call. -/
theorem sim_result {act act' : Act (Option Value)}
    (h : Sim place link (fun more => Option.Rel (ValueRel more)) act act') :
    Sim place link (NextRel place) (do pushResult (← act); pure .behind)
      (do pushResult (← act'); pure .behind) := by
  refine .bind h ?_
  intro more found found' _ hfound
  refine sim_behind ?_
  cases hfound with
  | some hvalue => exact sim_pushValue hvalue
  | none => exact .done trivial

/-- Texts that are written from values that are the same. -/
inductive WrittenRel (link : Link) : Written → Written → Prop where
  | old {value value' : Value} (h : ValueRel link value value') :
      WrittenRel link (.old value) (.old value')
  | new (text : JavaString) : WrittenRel link (.new text) (.new text)

/-- The text of a value is the same. -/
theorem valueOf_rel {world world' : World} (hworld : WorldRel link world world')
    (target : MethodRef) (onInterface : Bool) {value value' : Value}
    (hvalue : ValueRel link value value') :
    Option.Rel (WrittenRel link) (written? world (.invokestatic target onInterface) [value])
      (written? world' (.invokestatic target onInterface) [value']) := by
  simp only [written?, hvalue.null_iff, hworld.textOf?_eq hvalue]
  split
  · split
    · exact .some (.old (.constant _))
    · cases world.textOf? value with
      | none => exact .none
      | some text => exact .some (.old hvalue)
  · exact .none

/-- One text behind another is the same. -/
theorem concat_rel {world world' : World} (hworld : WorldRel link world world')
    (target : MethodRef) {front front' back back' : Value} (hfront : ValueRel link front front')
    (hback : ValueRel link back back') :
    Option.Rel (WrittenRel link) (written? world (.invokevirtual target) [front, back])
      (written? world' (.invokevirtual target) [front', back']) := by
  simp only [written?, hworld.textOf?_eq hfront, hworld.textOf?_eq hback]
  split
  · cases world.textOf? front with
    | none => exact .none
    | some text =>
        cases world.textOf? back with
        | none => exact .none
        | some more =>
            dsimp only
            split
            · exact .some (.old hfront)
            · exact .some (.new _)
  · exact .none

/-- The methods for texts give the same. -/
theorem written?_rel {world world' : World} (hworld : WorldRel link world world')
    (instruction : Instruction) {arguments arguments' : List Value}
    (harguments : List.Forall₂ (ValueRel link) arguments arguments') :
    Option.Rel (WrittenRel link) (written? world instruction arguments)
      (written? world' instruction arguments') := by
  obtain _ | ⟨hfirst, _ | ⟨hsecond, _ | ⟨hthird, hrest⟩⟩⟩ := harguments
  · cases instruction <;> exact .none
  · cases instruction
    case invokestatic target onInterface => exact valueOf_rel hworld target onInterface hfirst
    all_goals exact .none
  · cases instruction
    case invokevirtual target => exact concat_rel hworld target hfirst hsecond
    all_goals exact .none
  · cases instruction <;> exact .none

/-- Calling a method that is no constructor. -/
theorem sim_invoke {instruction : Instruction} (h : Respects around instruction instruction)
    {arguments arguments' : List Value}
    (harguments : List.Forall₂ (ValueRel link) arguments arguments') :
    Sim place link (fun more => Option.Rel (ValueRel more)) (invoke around instruction arguments)
      (invoke around instruction arguments') := by
  refine .bind sim_world ?_
  intro more world world' hmore hworld
  have harguments := ValueRel.mono_list hmore harguments
  have hwritten := written?_rel hworld instruction harguments
  generalize written? world instruction arguments = found,
    written? world' instruction arguments' = found' at hwritten
  cases hwritten with
  | none => exact sim_leave h harguments
  | some hwritten =>
      cases hwritten with
      | old hvalue => exact .done (.some hvalue)
      | new text =>
          refine .bind (sim_create (.text text)) ?_
          intro most value value' _ hvalue
          exact .done (.some hvalue)

/-- Calling a method without a receiver. -/
theorem sim_callStatic {instruction : Instruction} (h : Respects around instruction instruction)
    (descriptor : MethodDescriptor) :
    Sim place link (NextRel place) (callStatic around instruction descriptor)
      (callStatic around instruction descriptor) := by
  unfold callStatic
  cases MethodType.parse descriptor with
  | error fault => exact sim_stuck _
  | ok type =>
      refine .bind (sim_popArguments _) ?_
      intro more arguments arguments' _ harguments
      exact sim_result (sim_invoke h harguments)

/-- Calling a method on a receiver. -/
theorem sim_callOn {instruction : Instruction} (h : Respects around instruction instruction)
    (target : MethodRef) :
    Sim place link (NextRel place) (callOn around instruction target)
      (callOn around instruction target) := by
  unfold callOn
  cases MethodType.parse target.descriptor with
  | error fault => exact sim_stuck _
  | ok type =>
      refine .bind (sim_popArguments _) ?_
      intro _ arguments arguments' _ harguments
      refine .bind sim_popObject ?_
      intro more receiver receiver' hmore hreceiver
      exact sim_result (sim_invoke h (.cons hreceiver (ValueRel.mono_list hmore harguments)))

/-- Messages and causes that are given to constructors. -/
structure GivenRel (link : Link) (given given' : Option Value × Option Value) : Prop where
  message : Option.Rel (ValueRel link) given.1 given'.1
  cause : Option.Rel (ValueRel link) given.2 given'.2

/-- Constructors are given the same. -/
theorem given?_rel (descriptor : MethodDescriptor) {arguments arguments' : List Value}
    (harguments : List.Forall₂ (ValueRel link) arguments arguments') :
    Option.Rel (GivenRel link) (given? descriptor arguments) (given? descriptor arguments') := by
  obtain _ | ⟨hmessage, _ | ⟨hcause, _ | ⟨hthird, hrest⟩⟩⟩ := harguments
  · simp only [given?]
    split
    · exact .some ⟨.none, .none⟩
    · exact .none
  · simp only [given?]
    split
    · exact .some ⟨.some hmessage, .none⟩
    · exact .none
  · simp only [given?]
    split
    · exact .some ⟨.some hmessage, .some hcause⟩
    · exact .none
  · exact .none

/-- Constructors are given the same messages. -/
theorem messageIn?_eq {world world' : World} (hworld : WorldRel link world world')
    {found found' : Option Value} (h : Option.Rel (ValueRel link) found found') :
    messageIn? world' found' = messageIn? world found := by
  cases h with
  | none => rfl
  | some hvalue => simp only [messageIn?, hworld.messageOf?_eq hvalue]

/-- Calling a constructor of another exception that the machine knows. -/
theorem sim_makeFailure {id id' : Nat} (hlink : link id id') {cls : ClassName}
    (hcls : cls ≠ MatchFailure.exception) {message message' cause cause' : Option Value}
    (hmessage : Option.Rel (ValueRel link) message message')
    (hcause : Option.Rel (ValueRel link) cause cause') :
    Sim place link (fun more => Option.Rel (ValueRel more)) (makeFailure id cls message cause)
      (makeFailure id' cls message' cause') := by
  refine .bind sim_world ?_
  intro more world world' hmore hworld
  rw [messageIn?_eq hworld (ValueRel.mono_option hmore hmessage)]
  split
  · next text htext =>
      refine .bind (sim_write (hmore _ _ hlink)
        (.failure hcls text (ValueRel.mono_option hmore hcause))) ?_
      intro _ _ _ _ _
      exact .done .none
  · exact sim_stuck _

/-- Calling a constructor, and in the place of one of the exception one of the class that stands in.
Those of the exception that the machine knows are left out. -/
theorem sim_construct {instruction instruction' : Instruction}
    (h : Respects around instruction instruction') {target target' : MethodRef}
    (howner : target'.owner = standIn target.owner)
    (hdescriptor : target'.descriptor = target.descriptor)
    {receiver receiver' : Value} (hreceiver : ValueRel link receiver receiver')
    {arguments arguments' : List Value}
    (harguments : List.Forall₂ (ValueRel link) arguments arguments')
    (hunknown : target.owner = MatchFailure.exception →
      given? target.descriptor arguments = none) :
    Sim place link (fun more => Option.Rel (ValueRel more))
      (construct around instruction target receiver arguments)
      (construct around instruction' target' receiver' arguments') := by
  cases hreceiver with
  | number n | null | constant c => exact sim_stuck _
  | object hlink =>
      refine .bind (sim_read hlink) ?_
      intro more object object' hmore hobject
      have hall := List.Forall₂.cons (ValueRel.object (hmore _ _ hlink))
        (ValueRel.mono_list hmore harguments)
      cases hobject with
      | text | array | failure | exchanged => exact sim_stuck _
      | record cls progress hfields =>
          cases progress with
          | ready => exact sim_stuck _
          | entered =>
              dsimp only
              by_cases hexception : target.owner = MatchFailure.exception
              · rw [if_pos hexception]
                exact sim_stuck _
              · have hexception' : target'.owner ≠ MatchFailure.exception := by
                  rwa [howner, standIn_of_ne hexception]
                rw [if_neg hexception, if_neg hexception']
                exact sim_leave h hall
          | created =>
              dsimp only
              by_cases hcls : cls = target.owner
              · obtain rfl := hcls
                rw [if_pos rfl, if_pos howner.symm, hdescriptor]
                have hgiven := given?_rel target.descriptor (ValueRel.mono_list hmore harguments)
                generalize hfound : given? target.descriptor arguments = found,
                  given? target.descriptor arguments' = found' at hgiven
                cases hgiven with
                | none => exact sim_leave h hall
                | @some given given' hgiven =>
                    have htarget : target.owner ≠ MatchFailure.exception := by
                      intro hexception
                      rw [hunknown hexception] at hfound
                      cases hfound
                    obtain ⟨message, cause⟩ := given
                    obtain ⟨message', cause'⟩ := given'
                    rw [standIn_of_ne htarget]
                    exact .ite Iff.rfl
                      (fun _ => sim_makeFailure (hmore _ _ hlink) htarget hgiven.message hgiven.cause)
                      fun _ => sim_leave h hall
              · rw [if_neg hcls]
                exact sim_stuck _

/-- Calling a method of just one class, or a constructor, and in the place of a constructor of the
exception one of the class that stands in. -/
theorem sim_callSpecial {target target' : MethodRef} {onInterface : Bool}
    (h : Respects around (.invokespecial target onInterface) (.invokespecial target' onInterface))
    (hname : target.name = MethodName.constructor) (hname' : target'.name = MethodName.constructor)
    (howner : target'.owner = standIn target.owner)
    (hdescriptor : target'.descriptor = target.descriptor)
    (hunknown : target.owner = MatchFailure.exception →
      ∀ arguments, given? target.descriptor arguments = none) :
    Sim place link (NextRel place)
      (callSpecial around (.invokespecial target onInterface) target)
      (callSpecial around (.invokespecial target' onInterface) target') := by
  unfold callSpecial
  rw [if_pos hname, if_pos hname', hdescriptor]
  cases MethodType.parse target.descriptor with
  | error fault => exact sim_stuck _
  | ok type =>
      refine .bind (sim_popArguments _) ?_
      intro _ arguments arguments' _ harguments
      refine .bind (sim_popKind .reference) ?_
      intro more receiver receiver' hmore hreceiver
      exact sim_result (sim_construct h howner hdescriptor hreceiver
        (ValueRel.mono_list hmore harguments) fun hexception => hunknown hexception arguments)

end Calls

/-! ## All instructions -/

section Instructions

/-- Testing for nothing. -/
theorem sim_testNull : Sim place link (fun _ => Eq) testNull testNull := by
  refine .bind (sim_popKind .reference) ?_
  intro more value value' _ hvalue
  exact .done (decide_eq_decide.mpr hvalue.null_iff.symm)

/-- Comparing references. -/
theorem sim_testSame : Sim place link (fun _ => Eq) testSame testSame := by
  refine .bind (sim_popKind .reference) ?_
  intro _ last last' _ hlast
  refine .bind (sim_popKind .reference) ?_
  intro more first first' hmore hfirst state state' hstate
  have hsame := hstate.world.eq_iff hfirst (hlast.mono hmore)
  exact .ok le_rfl (decide_eq_decide.mpr hsame.symm) hstate

/-- Comparing numbers. -/
theorem sim_testNumbers (condition : Condition) :
    Sim place link (fun _ => Eq) (testNumbers condition) (testNumbers condition) := by
  refine .bind sim_popInt ?_
  rintro _ last _ _ rfl
  refine .ite Iff.rfl (fun _ => ?_) fun _ => .done rfl
  refine .bind sim_popInt ?_
  rintro _ first _ _ rfl
  exact .done rfl

/-- Testing the opposite. -/
theorem sim_not {act : Act Bool} (h : Sim place link (fun _ => Eq) act act) :
    Sim place link (fun _ => Eq) (do return !(← act)) (do return !(← act)) := by
  refine .bind h ?_
  rintro more b _ _ rfl
  exact .done rfl

/-- Testing a condition. -/
theorem sim_test (condition : Condition) :
    Sim place link (fun _ => Eq) (test condition) (test condition) := by
  cases condition
  case null => exact sim_testNull
  case nonnull => exact sim_not sim_testNull
  case acmpeq => exact sim_testSame
  case acmpne => exact sim_not sim_testSame
  all_goals exact sim_testNumbers _

/-- Using a field. -/
theorem sim_performField (target : FieldRef) (use : FieldUse) :
    Sim place link (fun _ _ _ => True) (performField around target use)
      (performField around target use) := by
  cases use with
  | getStatic =>
      refine .bind sim_world ?_
      intro more world world' _ hworld
      exact sim_pushValue (hworld.statics _)
  | putStatic =>
      refine .bind sim_popValue ?_
      intro more value value' _ hvalue
      exact sim_writeStatic _ hvalue
  | getField =>
      refine .bind sim_popObject ?_
      intro _ receiver receiver' _ hreceiver
      cases hreceiver with
      | number n | null | constant c => exact sim_stuck _
      | object hlink =>
          refine .bind (sim_read hlink) ?_
          intro more object object' _ hobject
          cases hobject with
          | record cls progress hfields => exact sim_pushValue (hfields _)
          | text | array | failure | exchanged => exact sim_stuck _
  | putField =>
      refine .bind sim_popValue ?_
      intro _ value value' _ hvalue
      refine .bind sim_popObject ?_
      intro _ receiver receiver' hreceivers hreceiver
      cases hreceiver with
      | number n | null | constant c => exact sim_stuck _
      | object hlink =>
          refine .bind (sim_read hlink) ?_
          intro more object object' hmore hobject
          cases hobject with
          | record cls progress hfields =>
              have hvalue := hvalue.mono (hreceivers.trans hmore)
              exact sim_write (hmore _ _ hlink)
                (.record cls progress (valueRel_update hfields _ hvalue))
          | text | array | failure | exchanged => exact sim_stuck _

/-- Performing an instruction without operands. -/
theorem sim_performOp (hlawful : IsLawful around) (op : Op) :
    Sim place link (NextRel place) (performOp around op) (performOp around op) := by
  unfold performOp
  cases work op with
  | nothing => exact .done .behind
  | null => exact sim_behind (sim_pushValue .null)
  | constant number => exact sim_behind (sim_pushValue (.number number))
  | calculate count =>
      refine .bind (sim_popNumbers count) ?_
      rintro more numbers _ _ rfl
      cases around.calculate op numbers with
      | none => exact sim_raise (by decide)
      | some number => exact sim_behind (sim_pushValue (.number number))
  | discard slots =>
      refine .bind (sim_popSlots slots) ?_
      intro more taken taken' _ _
      exact .done .behind
  | duplicate slots under =>
      refine .bind (sim_popSlots slots) ?_
      intro _ taken taken' _ htaken
      refine .bind (sim_popSlots under) ?_
      intro more below below' hmore hbelow
      have htaken := CellRel.mono_list hmore htaken
      exact sim_behind (sim_pushAll (List.rel_append (List.rel_append htaken hbelow) htaken))
  | swap =>
      refine .bind (sim_popSlots 1) ?_
      intro _ first first' _ hfirst
      refine .bind (sim_popSlots 1) ?_
      intro more second second' hmore hsecond
      exact sim_behind (sim_pushAll (List.rel_append hsecond (CellRel.mono_list hmore hfirst)))
  | getElement kind => exact sim_behind (sim_getElement kind)
  | putElement kind => exact sim_behind (sim_putElement hlawful kind)
  | length =>
      refine .bind sim_popObject ?_
      intro _ array array' _ harray
      refine .bind (sim_readArray harray) ?_
      rintro more ⟨id, cls, elements⟩ ⟨id', cls', elements'⟩ _ ⟨-, -, -, helements⟩
      have hlength : elements'.length = elements.length := helements.length_eq.symm
      simp only [hlength]
      exact sim_behind (sim_pushValue (.number _))
  | finish kind =>
      cases kind with
      | none => exact .done (.finish .none)
      | some kind =>
          refine .bind (sim_popKind kind) ?_
          intro more value value' _ hvalue
          exact .done (.finish (.some hvalue))
  | throw =>
      refine .bind sim_popObject ?_
      intro more exception exception' _ hexception
      exact sim_throwing hexception
  | lock =>
      refine .bind sim_popObject ?_
      intro more value value' _ _
      exact .done .behind

/-- Arrays of another class are not there for the exception. -/
theorem isNeutral_arrayOf {name : ClassName} (hname : name ≠ MatchFailure.exception) :
    IsNeutral (ClassName.arrayOf name) := by
  have hbracket : ∀ rest : List Char, ¬ ('[' :: rest = MatchFailure.exception.toList) := by
    intro rest h
    cases h
  unfold ClassName.arrayOf
  by_cases harray : name.isArray = true
  · have hlist : ("[" ++ name).toList = '[' :: name.toList := String.toList_append
    obtain ⟨rest, hrest⟩ : ∃ rest, name.toList = '[' :: rest := Text.beginsWith_iff.mp harray
    have helement : elementClass ("[" ++ name) = name := by
      rw [elementClass, hlist, List.drop_succ_cons, List.drop_zero, hrest]
      change String.ofList ('[' :: rest) = name
      rw [← hrest, String.ofList_toList]
    rw [if_pos harray]
    refine ⟨?_, helement.trans_ne hname⟩
    intro h
    exact hbracket _ (hlist.symm.trans (congrArg String.toList h))
  · have hlist : ("[L" ++ name ++ ";").toList = '[' :: 'L' :: (name.toList ++ [';']) := by
      rw [String.toList_append, String.toList_append]
      rfl
    have helement : elementClass ("[L" ++ name ++ ";") = name := by
      rw [elementClass, hlist]
      change String.ofList (name.toList ++ [';']).dropLast = name
      rw [List.dropLast_concat, String.ofList_toList]
    rw [if_neg harray]
    refine ⟨?_, helement.trans_ne hname⟩
    intro h
    exact hbracket _ (hlist.symm.trans (congrArg String.toList h))

/-- Values that are the same fit another class alike. -/
theorem fits_eq (hlawful : IsLawful around) {name : ClassName}
    (hname : name ≠ MatchFailure.exception) {world world' : World} {value value' : Value}
    (hworld : WorldRel link world world') (hvalue : ValueRel link value value') :
    fits around world' name value' = fits around world name value := by
  have hnull : (value' = .null) = (value = .null) := propext hvalue.null_iff
  simp only [fits, hnull, hlawful.any_isA hname hworld hvalue]

/-- Putting what work gives on the stack, and going on behind it. -/
theorem sim_pushing {act act' : Act Value} (h : Sim place link ValueRel act act') :
    Sim place link (NextRel place) (do pushValue (← act); pure .behind)
      (do pushValue (← act'); pure .behind) := by
  refine .bind h ?_
  intro more value value' _ hvalue
  exact sim_behind (sim_pushValue hvalue)

/-- Loading a constant. -/
theorem sim_loadConstant {constant : Loadable}
    (h : Respects around (.ldc constant) (.ldc constant)) :
    Sim place link (NextRel place) (loadConstant around constant)
      (loadConstant around constant) := by
  unfold loadConstant
  cases hfound : Value.ofLoadable? constant with
  | none => exact sim_result (sim_leave h .nil)
  | some value => exact sim_behind (sim_pushValue (valueRel_ofLoadable? hfound))

variable {index index' : Nat}

/-- Loading from a local variable. -/
theorem sim_performLoad (kind : ValueKind) (slot : UInt16) :
    Sim place link (NextRel place) (perform around index (.load kind slot))
      (perform around index' (.load kind slot)) := by
  refine .bind (sim_load slot) ?_
  intro more cell cell' _ hcell
  rw [hcell.kind_eq]
  exact .ite Iff.rfl (fun _ => sim_behind (sim_push hcell)) fun _ => sim_stuck _

/-- Storing in a local variable. -/
theorem sim_performStore (kind : ValueKind) (slot : UInt16) :
    Sim place link (NextRel place) (perform around index (.store kind slot))
      (perform around index' (.store kind slot)) := by
  refine .bind sim_pop ?_
  intro more cell cell' _ hcell
  rw [hcell.kind_eq]
  exact .ite Iff.rfl (fun _ => sim_behind (sim_store slot hcell)) fun _ => sim_stuck _

/-- Counting in a local variable. -/
theorem sim_performCount (slot : UInt16) (delta : Int16) :
    Sim place link (NextRel place) (perform around index (.iinc slot delta))
      (perform around index' (.iinc slot delta)) := by
  refine .bind (sim_load slot) ?_
  intro more cell cell' _ hcell
  cases hcell with
  | place index => exact sim_stuck _
  | value hvalue =>
      cases hvalue with
      | null | constant c | object h => exact sim_stuck _
      | number n =>
          cases n with
          | int n => exact sim_behind (sim_store slot (.value (.number _)))
          | long n | float n | double n => exact sim_stuck _

/-- Jumping on a condition. -/
theorem sim_performBranch (condition : Condition) (target : Label) :
    Sim place link (NextRel place) (perform around index (.branch condition target))
      (perform around index' (.branch condition target)) := by
  refine .bind (sim_test condition) ?_
  rintro more b _ _ rfl
  cases b with
  | false => exact .done .behind
  | true => exact .done (.jump target)

/-- Calling a subroutine, from places whose next places correspond. -/
theorem sim_performSubroutine (hplace : place (index + 1) = index' + 1) (target : Label) :
    Sim place link (NextRel place) (perform around index (.jsr target))
      (perform around index' (.jsr target)) := by
  have hcell : CellRel place link (.place (index + 1)) (.place (index' + 1)) :=
    hplace ▸ .place (index + 1)
  refine .bind (sim_push hcell) ?_
  intro more _ _ _ _
  exact .done (.jump target)

/-- Coming back from a subroutine. -/
theorem sim_performBack (slot : UInt16) :
    Sim place link (NextRel place) (perform around index (.ret slot))
      (perform around index' (.ret slot)) := by
  refine .bind (sim_load slot) ?_
  intro more cell cell' _ hcell
  cases hcell with
  | place index => exact .done (.back index)
  | value hvalue => exact sim_stuck _

/-- Calling a method of just one class, or a constructor of another class than the exception. -/
theorem sim_performSpecial {target : MethodRef} {onInterface : Bool}
    (habout : MatchFailure.isAbout (.invokespecial target onInterface) = false)
    (h : Respects around (.invokespecial target onInterface) (.invokespecial target onInterface)) :
    Sim place link (NextRel place) (perform around index (.invokespecial target onInterface))
      (perform around index' (.invokespecial target onInterface)) := by
  by_cases hname : target.name = MethodName.constructor
  · have htarget : target.owner ≠ MatchFailure.exception := by
      intro howner
      simp [MatchFailure.isAbout, howner, hname] at habout
    exact sim_callSpecial h hname hname (standIn_of_ne htarget).symm rfl fun howner =>
      absurd howner htarget
  · change Sim place link (NextRel place) (callSpecial around _ target)
      (callSpecial around _ target)
    unfold callSpecial
    rw [if_neg hname]
    exact sim_callOn h target

/-- Creating an object of another class than the exception. -/
theorem sim_performNew {name : ClassName} (hname : name ≠ MatchFailure.exception) :
    Sim place link (NextRel place) (perform around index (.new name))
      (perform around index' (.new name)) := by
  have hfresh : ObjectRel link (.fresh name .created) (.fresh (standIn name) .created) :=
    objectRel_fresh name .created
  rw [standIn_of_ne hname] at hfresh
  exact sim_pushing (sim_create hfresh)

/-- Making one array, not for the exception. -/
theorem sim_createArray {descriptor : FieldDescriptor} (h : IsNeutral descriptor) :
    Sim place link (NextRel place)
      (do let length ← popLength; pushValue (← createArrays descriptor [length]); pure .behind)
      (do let length ← popLength; pushValue (← createArrays descriptor [length]); pure .behind) := by
  refine .bind sim_popLength ?_
  rintro _ length _ _ rfl
  refine sim_pushing (sim_createArrays ?_)
  intro depth hdepth
  obtain rfl : depth = 0 := Nat.lt_one_iff.mp hdepth
  exact h

/-- Arrays of numbers are not there for the exception. -/
theorem isNeutral_arrayClass (element : Primitive) : IsNeutral element.arrayClass := by
  cases element <;> exact ⟨by decide, by decide⟩

/-- Making arrays of arrays, none of them for the exception. -/
theorem sim_performArrays {name : ClassName} {dimensions : UInt8}
    (h : ∀ depth < dimensions.toNat, IsNeutral (elementDescriptor^[depth] name)) :
    Sim place link (NextRel place) (perform around index (.multianewarray name dimensions))
      (perform around index' (.multianewarray name dimensions)) := by
  refine .bind (sim_popLengths dimensions.toNat) ?_
  rintro _ lengths _ _ ⟨rfl, hlength⟩
  refine sim_pushing (sim_createArrays ?_)
  intro depth hdepth
  exact h depth (hlength ▸ hdepth)

/-- Testing whether a value is of another class than the exception, and throwing if it is not. -/
theorem sim_performCast (hlawful : IsLawful around) {name : ClassName}
    (hname : name ≠ MatchFailure.exception) :
    Sim place link (NextRel place) (perform around index (.checkcast name))
      (perform around index' (.checkcast name)) := by
  refine .bind (sim_popKind .reference) ?_
  intro _ value value' _ hvalue
  refine .bind sim_world ?_
  intro more world world' hmore hworld
  have hvalue := hvalue.mono hmore
  rw [fits_eq hlawful hname hworld hvalue]
  exact .ite Iff.rfl (fun _ => sim_behind (sim_pushValue hvalue)) fun _ => sim_raise (by decide)

/-- Testing whether a value is of another class than the exception. -/
theorem sim_performInstanceof (hlawful : IsLawful around) {name : ClassName}
    (hname : name ≠ MatchFailure.exception) :
    Sim place link (NextRel place) (perform around index (.instanceof name))
      (perform around index' (.instanceof name)) := by
  refine .bind (sim_popKind .reference) ?_
  intro _ value value' _ hvalue
  refine .bind sim_world ?_
  intro more world world' hmore hworld
  rw [hlawful.any_isA hname hworld (hvalue.mono hmore)]
  exact sim_behind (sim_pushValue (.number _))

/-- **Every instruction that is not about the exception and does not ask for it does the same** to
states that correspond, at places that correspond. -/
theorem sim_perform (hlawful : IsLawful around) {instruction : Instruction}
    (habout : MatchFailure.isAbout instruction = false) (hasks : ¬ Asks instruction)
    (hrespects : Respects around instruction instruction) {index : Nat}
    (hplace : place (index + 1) = place index + 1) :
    Sim place link (NextRel place) (perform around index instruction)
      (perform around (place index) instruction) := by
  cases instruction with
  | op op => exact sim_performOp hlawful op
  | bipush value => exact sim_behind (sim_pushValue (.number _))
  | sipush value => exact sim_behind (sim_pushValue (.number _))
  | ldc constant => exact sim_loadConstant hrespects
  | load kind slot => exact sim_performLoad kind slot
  | store kind slot => exact sim_performStore kind slot
  | iinc slot delta => exact sim_performCount slot delta
  | branch condition target => exact sim_performBranch condition target
  | goto target => exact .done (.jump target)
  | jsr target => exact sim_performSubroutine hplace target
  | ret slot => exact sim_performBack slot
  | tableswitch fallback low high targets =>
      refine .bind sim_popInt ?_
      rintro more n _ _ rfl
      exact .done (.jump _)
  | lookupswitch fallback table =>
      refine .bind sim_popInt ?_
      rintro more n _ _ rfl
      exact .done (.jump _)
  | field use target => exact sim_behind (sim_performField target use)
  | invokevirtual target => exact sim_callOn hrespects target
  | invokespecial target onInterface => exact sim_performSpecial habout hrespects
  | invokestatic target onInterface => exact sim_callStatic hrespects target.descriptor
  | invokeinterface target => exact sim_callOn hrespects target
  | invokedynamic site => exact sim_callStatic hrespects site.descriptor
  | new name =>
      have hname : name ≠ MatchFailure.exception := by
        intro hname
        simp [MatchFailure.isAbout, hname] at habout
      exact sim_performNew hname
  | newarray element => exact sim_createArray (isNeutral_arrayClass element)
  | anewarray name =>
      have hname : name ≠ MatchFailure.exception := by
        rintro rfl
        exact hasks .anewarray
      exact sim_createArray (isNeutral_arrayOf hname)
  | checkcast name =>
      have hname : name ≠ MatchFailure.exception := by
        rintro rfl
        exact hasks .checkcast
      exact sim_performCast hlawful hname
  | instanceof name =>
      have hname : name ≠ MatchFailure.exception := by
        rintro rfl
        exact hasks .instanceof
      exact sim_performInstanceof hlawful hname
  | multianewarray name dimensions =>
      refine sim_performArrays ?_
      intro depth hdepth
      exact not_not.mp fun h => hasks (.multianewarray hdepth h)

end Instructions

end Exchange

end Downlevel
