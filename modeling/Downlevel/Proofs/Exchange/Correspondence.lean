import Mathlib.Data.List.Forall2
import Mathlib.Order.Basic
import Downlevel.Proofs.Exchange.Machine

/-!
# What corresponds when one exception stands in for another

Code that creates one exception and code that creates another one in its place work on worlds that
differ: in the exceptions, in the texts that were put together for their messages, and so in the
numbers of all objects.  A link says which objects of the two worlds are the same for the code.
Linked objects are alike up to the exception: where one is of the exception's class, the other is of
the class that stands in for it; if a constructor was given a message and a cause, the other has the
same cause, and its message is the text of the first one behind the tag.

A link only grows while code runs: objects that corresponded once go on to correspond.

* `Sim` — work that takes corresponding states to corresponding ones, and comes to the same end;
* `Sim.bind` — work that follows on such work;
* `sim_create`, `sim_read`, `sim_write` — what is done to objects.
-/

namespace Downlevel

namespace Exchange

open Machine

/-! ## The correspondence -/

/-- Which objects of two worlds are the same. -/
abbrev Link := Nat → Nat → Prop

/-- The class that stands in for a class. -/
def standIn (cls : ClassName) : ClassName :=
  if cls = MatchFailure.exception then MatchFailure.replacement else cls

/-- Values that are the same. -/
inductive ValueRel (link : Link) : Value → Value → Prop where
  | number (value : Number) : ValueRel link (.number value) (.number value)
  | null : ValueRel link .null .null
  | constant (value : Loadable) : ValueRel link (.constant value) (.constant value)
  | object {id id' : Nat} (h : link id id') : ValueRel link (.object id) (.object id')

/-- What stands in places of two stacks is the same, where `place` says to which instruction of the
second code one of the first corresponds. -/
inductive CellRel (place : Nat → Nat) (link : Link) : Cell → Cell → Prop where
  | value {value value' : Value} (h : ValueRel link value value') :
      CellRel place link (.value value) (.value value')
  | place (index : Nat) : CellRel place link (.place index) (.place (place index))

/-- The message that stands in for a message. -/
def tagged : Message → JavaString
  | .absent => JavaString.ofString MatchFailure.bareTag
  | .given text => (JavaString.ofString MatchFailure.tag).append (text.getD Running.nullText)

/-- Neither a class is that of the exception, nor are its arrays there for it. -/
def IsNeutral (cls : ClassName) : Prop :=
  cls ≠ MatchFailure.exception ∧ elementClass cls ≠ MatchFailure.exception

/-- Objects that are the same up to the exception.  Nobody makes arrays for it. -/
inductive ObjectRel (link : Link) : Object → Object → Prop where
  | record (cls : ClassName) (progress : Progress) {fields fields' : FieldRef → Value}
      (h : ∀ field, ValueRel link (fields field) (fields' field)) :
      ObjectRel link (.record cls progress fields) (.record (standIn cls) progress fields')
  | text (value : JavaString) : ObjectRel link (.text value) (.text value)
  | array {cls : ClassName} {elements elements' : List Value} (hcls : IsNeutral cls)
      (h : List.Forall₂ (ValueRel link) elements elements') :
      ObjectRel link (.array cls elements) (.array cls elements')
  | failure {cls : ClassName} {cause cause' : Option Value} (hcls : cls ≠ MatchFailure.exception)
      (message : Message) (hcause : Option.Rel (ValueRel link) cause cause') :
      ObjectRel link (.failure cls message cause) (.failure cls message cause')
  | exchanged {cause cause' : Option Value} (message : Message)
      (hcause : Option.Rel (ValueRel link) cause cause') :
      ObjectRel link (.failure MatchFailure.exception message cause)
        (.failure MatchFailure.replacement (.given (some (tagged message))) cause')

/-- Worlds in which linked objects are the same, and each is linked to one only. -/
structure WorldRel (link : Link) (world world' : World) : Prop where
  objects {id id' : Nat} (h : link id id') : ∃ object object', world.heap[id]? = some object ∧
    world'.heap[id']? = some object' ∧ ObjectRel link object object'
  unique {id id' other other' : Nat} (h : link id id') (h' : link other other') :
    id = other ↔ id' = other'
  statics (field : FieldRef) : ValueRel link (world.statics field) (world'.statics field)

/-- States that are the same. -/
structure StateRel (place : Nat → Nat) (link : Link) (state state' : State) : Prop where
  stack : List.Forall₂ (CellRel place link) state.stack state'.stack
  locals (slot : UInt16) : Option.Rel (CellRel place link) (state.locals slot) (state'.locals slot)
  world : WorldRel link state.world state'.world

/-- Code goes on at the same place. -/
inductive NextRel (place : Nat → Nat) (link : Link) : Next → Next → Prop where
  | behind : NextRel place link .behind .behind
  | jump (target : Label) : NextRel place link (.jump target) (.jump target)
  | back (index : Nat) : NextRel place link (.back index) (.back (place index))
  | finish {value value' : Option Value} (h : Option.Rel (ValueRel link) value value') :
      NextRel place link (.finish value) (.finish value')

/-- Calls that come to the same.  Where the first one makes no sense nothing is asked. -/
inductive OutcomeRel (link : Link) : Outcome → Outcome → Prop where
  | returned {more : Link} {value value' : Option Value} {world world' : World}
      (hmore : link ≤ more) (hvalue : Option.Rel (ValueRel more) value value')
      (hworld : WorldRel more world world') :
      OutcomeRel link (.returned value world) (.returned value' world')
  | threw {more : Link} {exception exception' : Value} {world world' : World}
      (hmore : link ≤ more) (hexception : ValueRel more exception exception')
      (hworld : WorldRel more world world') :
      OutcomeRel link (.threw exception world) (.threw exception' world')
  | stuck (outcome : Outcome) : OutcomeRel link .stuck outcome

/-- Work that comes to the same.  Where the first one gets stuck nothing is asked. -/
inductive ResultRel {α β : Type} (place : Nat → Nat) (link : Link) (R : Link → α → β → Prop) :
    Except Stop (α × State) → Except Stop (β × State) → Prop where
  | ok {more : Link} {a : α} {b : β} {state state' : State} (hmore : link ≤ more) (h : R more a b)
      (hstate : StateRel place more state state') :
      ResultRel place link R (.ok (a, state)) (.ok (b, state'))
  | threw {more : Link} {exception exception' : Value} {world world' : World}
      (hmore : link ≤ more) (hexception : ValueRel more exception exception')
      (hworld : WorldRel more world world') :
      ResultRel place link R (.error (.threw exception world)) (.error (.threw exception' world'))
  | stuck (result : Except Stop (β × State)) : ResultRel place link R (.error .stuck) result

/-- Two pieces of work take corresponding states to corresponding ones, with results that are in a
relation. -/
def Sim {α β : Type} (place : Nat → Nat) (link : Link) (R : Link → α → β → Prop) (act : Act α)
    (act' : Act β) : Prop :=
  ∀ state state', StateRel place link state state' →
    ResultRel place link R (act state) (act' state')

/-- Calls of two instructions do the same to corresponding arguments and worlds. -/
def Respects (around : Surroundings) (instruction instruction' : Instruction) : Prop :=
  ∀ link arguments arguments' world world', List.Forall₂ (ValueRel link) arguments arguments' →
    WorldRel link world world' →
    OutcomeRel link (around.call instruction arguments world)
      (around.call instruction' arguments' world')

variable {link more : Link} {place : Nat → Nat} {value value' : Value} {world world' : World}

/-! ## Links grow -/

section Growing

/-- What is the same stays the same. -/
theorem ValueRel.mono (hmore : link ≤ more) (h : ValueRel link value value') :
    ValueRel more value value' := by
  cases h with
  | number n => exact .number n
  | null => exact .null
  | constant c => exact .constant c
  | object h => exact .object (hmore _ _ h)

/-- Lists of values stay the same. -/
theorem ValueRel.mono_list (hmore : link ≤ more) {values values' : List Value}
    (h : List.Forall₂ (ValueRel link) values values') :
    List.Forall₂ (ValueRel more) values values' :=
  h.imp fun _ _ hvalue => hvalue.mono hmore

/-- A value that may be missing stays the same. -/
theorem ValueRel.mono_option (hmore : link ≤ more) {found found' : Option Value}
    (h : Option.Rel (ValueRel link) found found') : Option.Rel (ValueRel more) found found' := by
  cases h with
  | some h => exact .some (h.mono hmore)
  | none => exact .none

/-- What stands in a place stays the same. -/
theorem CellRel.mono (hmore : link ≤ more) {cell cell' : Cell} (h : CellRel place link cell cell') :
    CellRel place more cell cell' := by
  cases h with
  | value h => exact .value (h.mono hmore)
  | place index => exact .place index

/-- What stands in several places stays the same. -/
theorem CellRel.mono_list (hmore : link ≤ more) {cells cells' : List Cell}
    (h : List.Forall₂ (CellRel place link) cells cells') :
    List.Forall₂ (CellRel place more) cells cells' :=
  h.imp fun _ _ hcell => hcell.mono hmore

/-- What is in a local variable stays the same. -/
theorem CellRel.mono_option (hmore : link ≤ more) {found found' : Option Cell}
    (h : Option.Rel (CellRel place link) found found') :
    Option.Rel (CellRel place more) found found' := by
  cases h with
  | some h => exact .some (h.mono hmore)
  | none => exact .none

/-- Objects stay the same. -/
theorem ObjectRel.mono (hmore : link ≤ more) {object object' : Object}
    (h : ObjectRel link object object') : ObjectRel more object object' := by
  cases h with
  | record cls progress h => exact .record cls progress fun field => (h field).mono hmore
  | text value => exact .text value
  | array hcls h => exact .array hcls (ValueRel.mono_list hmore h)
  | failure hcls message hcause => exact .failure hcls message (ValueRel.mono_option hmore hcause)
  | exchanged message hcause => exact .exchanged message (ValueRel.mono_option hmore hcause)

/-- The stack and the local variables stay the same while the world changes. -/
theorem StateRel.withWorld {state state' : State} (h : StateRel place link state state')
    (hmore : link ≤ more) (hworld : WorldRel more world world') :
    StateRel place more { state with world := world } { state' with world := world' } where
  stack := CellRel.mono_list hmore h.stack
  locals := fun slot => CellRel.mono_option hmore (h.locals slot)
  world := hworld

end Growing

/-! ## What corresponding values are -/

section Reading

/-- Values that are the same are of one kind. -/
theorem ValueRel.kind_eq (h : ValueRel link value value') : value'.kind = value.kind := by
  cases h <;> rfl

/-- What stands in places is of one kind. -/
theorem CellRel.kind_eq {cell cell' : Cell} (h : CellRel place link cell cell') :
    cell'.kind = cell.kind := by
  cases h with
  | value h => exact h.kind_eq
  | place index => rfl

/-- Nothing corresponds to nothing only. -/
theorem ValueRel.null_iff (h : ValueRel link value value') : value' = .null ↔ value = .null := by
  cases h <;> simp

/-- Values are equal if those that they correspond to are. -/
theorem WorldRel.eq_iff (hworld : WorldRel link world world') {other other' : Value}
    (h : ValueRel link value value') (h' : ValueRel link other other') :
    value' = other' ↔ value = other := by
  cases h <;> cases h' <;> simp
  exact (hworld.unique ‹_› ‹_›).symm

/-- What is in a new field is the same. -/
theorem valueRel_zero (descriptor : FieldDescriptor) :
    ValueRel link (Value.zero descriptor) (Value.zero descriptor) := by
  unfold Value.zero
  split
  · exact .number _
  · exact .number _
  · exact .number _
  · exact .null
  · exact .null
  · exact .number _

/-- A constant is the same everywhere. -/
theorem valueRel_ofLoadable? {constant : Loadable} (h : Value.ofLoadable? constant = some value) :
    ValueRel link value value := by
  cases constant <;> cases h
  case int | long | float | double => exact .number _
  case cls | string | handle | methodType => exact .constant _

/-- The class that stands in for another class than that of the exception is the class itself. -/
theorem standIn_of_ne {cls : ClassName} (h : cls ≠ MatchFailure.exception) : standIn cls = cls :=
  if_neg h

/-- The class of an object stands in for that of the other one. -/
theorem ObjectRel.cls_eq {object object' : Object} (h : ObjectRel link object object') :
    object'.cls = standIn object.cls := by
  cases h with
  | record cls progress h => rfl
  | text value =>
      have hne : ClassName.javaString ≠ MatchFailure.exception := by decide
      exact (standIn_of_ne hne).symm
  | array hcls h => exact (standIn_of_ne hcls.1).symm
  | failure hcls message hcause => exact (standIn_of_ne hcls).symm
  | exchanged message hcause => exact (if_pos rfl).symm

/-- The class of what a value refers to stands in for that of the other one. -/
theorem WorldRel.classOf?_eq (hworld : WorldRel link world world')
    (h : ValueRel link value value') :
    world'.classOf? value' = (world.classOf? value).map standIn := by
  cases h with
  | number n => rfl
  | null => rfl
  | constant c =>
      have hconstant : ∀ found : Option ClassName, (∀ cls ∈ found, cls ≠ MatchFailure.exception) →
          found = found.map standIn := by
        intro found hfound
        cases found with
        | none => rfl
        | some cls => exact congrArg some (standIn_of_ne (hfound cls rfl)).symm
      have hsame : world'.classOf? (.constant c) = world.classOf? (.constant c) := by cases c <;> rfl
      rw [hsame]
      refine hconstant _ ?_
      intro cls hcls
      cases c <;> cases hcls <;> decide
  | object hlink =>
      obtain ⟨object, object', hobject, hobject', hrel⟩ := hworld.objects hlink
      simp only [World.classOf?, hobject, hobject', Option.map_some, hrel.cls_eq]

/-- Values that are the same refer to one text. -/
theorem WorldRel.textOf?_eq (hworld : WorldRel link world world')
    (h : ValueRel link value value') : world'.textOf? value' = world.textOf? value := by
  cases h with
  | number n => rfl
  | null => rfl
  | constant c => cases c <;> rfl
  | object hlink =>
      obtain ⟨object, object', hobject, hobject', hrel⟩ := hworld.objects hlink
      simp only [World.textOf?, hobject, hobject']
      cases hrel <;> rfl

/-- Values that are the same stand for one message. -/
theorem WorldRel.messageOf?_eq (hworld : WorldRel link world world')
    (h : ValueRel link value value') : world'.messageOf? value' = world.messageOf? value := by
  have htext := hworld.textOf?_eq h
  cases h with
  | null => rfl
  | number n | constant c | object hlink => exact congrArg (Option.map some) htext

end Reading

/-! ## What is done to worlds -/

section Changing

variable {object object' : Object}

/-- The link between the objects there are and two new ones. -/
def Link.grown (link : Link) (world world' : World) : Link :=
  fun id id' => link id id' ∨ (id = world.heap.length ∧ id' = world'.heap.length)

/-- Linked objects are numbered below the new ones. -/
theorem WorldRel.lt_length (hworld : WorldRel link world world') {id id' : Nat}
    (h : link id id') : id < world.heap.length ∧ id' < world'.heap.length := by
  obtain ⟨object, object', hobject, hobject', -⟩ := hworld.objects h
  exact ⟨(List.getElem?_eq_some_iff.mp hobject).1, (List.getElem?_eq_some_iff.mp hobject').1⟩

/-- **New objects that are the same may be linked.** -/
theorem WorldRel.add (hworld : WorldRel link world world') (hobject : ObjectRel link object object') :
    WorldRel (link.grown world world') (world.add object) (world'.add object') := by
  have hmore : link ≤ link.grown world world' := fun _ _ h => .inl h
  refine ⟨?_, ?_, fun field => (hworld.statics field).mono hmore⟩
  · rintro id id' (h | ⟨rfl, rfl⟩)
    · obtain ⟨found, found', hfound, hfound', hrel⟩ := hworld.objects h
      have hlt := hworld.lt_length h
      refine ⟨found, found', ?_, ?_, hrel.mono hmore⟩
      · exact (List.getElem?_append_left hlt.1).trans hfound
      · exact (List.getElem?_append_left hlt.2).trans hfound'
    · exact ⟨object, object', List.getElem?_concat_length, List.getElem?_concat_length,
        hobject.mono hmore⟩
  · rintro id id' other other' (h | ⟨rfl, rfl⟩) (h' | ⟨rfl, rfl⟩)
    · exact hworld.unique h h'
    · have := hworld.lt_length h
      omega
    · have := hworld.lt_length h'
      omega
    · exact iff_of_true rfl rfl

/-- A new object in the second world only is not linked to anything. -/
theorem WorldRel.add_right (hworld : WorldRel link world world') (object' : Object) :
    WorldRel link world (world'.add object') where
  objects := by
    intro id id' h
    obtain ⟨found, found', hfound, hfound', hrel⟩ := hworld.objects h
    exact ⟨found, found', hfound,
      (List.getElem?_append_left (hworld.lt_length h).2).trans hfound', hrel⟩
  unique := hworld.unique
  statics := hworld.statics

/-- **Linked objects may become others that are the same.** -/
theorem WorldRel.set (hworld : WorldRel link world world') {id id' : Nat} (h : link id id')
    (hobject : ObjectRel link object object') :
    WorldRel link (world.set id object) (world'.set id' object') where
  objects := by
    intro other other' hother
    have hunique := hworld.unique h hother
    by_cases hsame : id = other
    · obtain rfl := hsame
      obtain rfl := hunique.mp rfl
      have hlt := hworld.lt_length h
      exact ⟨object, object', List.getElem?_set_self hlt.1, List.getElem?_set_self hlt.2, hobject⟩
    · have hsame' : id' ≠ other' := fun heq => hsame (hunique.mpr heq)
      obtain ⟨found, found', hfound, hfound', hrel⟩ := hworld.objects hother
      exact ⟨found, found', (List.getElem?_set_ne hsame).trans hfound,
        (List.getElem?_set_ne hsame').trans hfound', hrel⟩
  unique := hworld.unique
  statics := hworld.statics

/-- Fields that are the same stay so when one of them is changed. -/
theorem valueRel_update {fields fields' : FieldRef → Value}
    (h : ∀ field, ValueRel link (fields field) (fields' field)) (field : FieldRef)
    (hvalue : ValueRel link value value') (other : FieldRef) :
    ValueRel link (Function.update fields field value other)
      (Function.update fields' field value' other) := by
  by_cases hother : other = field
  · obtain rfl := hother
    rw [Function.update_self, Function.update_self]
    exact hvalue
  · rw [Function.update_of_ne hother, Function.update_of_ne hother]
    exact h other

end Changing

/-! ## Work that comes to the same -/

section Sim

variable {α β γ δ : Type} {R : Link → α → β → Prop} {S : Link → γ → δ → Prop}

/-- What is asked of results may be less, and the link may have been smaller. -/
theorem ResultRel.mono (hmore : link ≤ more) {result : Except Stop (α × State)}
    {result' : Except Stop (β × State)} (h : ResultRel place more R result result') :
    ResultRel place link R result result' := by
  cases h with
  | ok hmost h hstate => exact .ok (hmore.trans hmost) h hstate
  | threw hmost hexception hworld => exact .threw (hmore.trans hmost) hexception hworld
  | stuck _ => exact .stuck _

/-- Nothing is done. -/
theorem Sim.done {a : α} {b : β} (h : R link a b) :
    Sim place link R (pure a : Act α) (pure b : Act β) :=
  fun _ _ hstate => .ok le_rfl h hstate

/-- **Work follows on work.** -/
theorem Sim.bind {act : Act α} {act' : Act β} {next : α → Act γ} {next' : β → Act δ}
    (h : Sim place link R act act')
    (hnext : ∀ more a b, link ≤ more → R more a b → Sim place more S (next a) (next' b)) :
    Sim place link S (act >>= next) (act' >>= next') := by
  intro state state' hstate
  have hresult := h state state' hstate
  -- what follows is done only where the work came to its end
  change ResultRel place link S (Except.bind (act state) fun (a, s) => next a s)
    (Except.bind (act' state') fun (b, s) => next' b s)
  generalize hdone : act state = result, hdone' : act' state' = result' at hresult
  cases hresult with
  | ok hmore ha hstate => exact (hnext _ _ _ hmore ha _ _ hstate).mono hmore
  | threw hmore hexception hworld => exact .threw hmore hexception hworld
  | stuck result => exact .stuck _

/-- Nothing is asked of what corresponds to work that gets stuck. -/
theorem sim_stuck (act' : Act β) : Sim place link R (stuck : Act α) act' :=
  fun _ _ _ => .stuck _

/-- Throwing. -/
theorem sim_throwing (h : ValueRel link value value') :
    Sim place link R (throwing value : Act α) (throwing value' : Act β) :=
  fun _ _ hstate => .threw le_rfl h hstate.world

/-- Taking what stands on top. -/
theorem sim_pop : Sim place link (CellRel place) pop pop := by
  intro state state' hstate
  have hstack := hstate.stack
  unfold pop
  generalize hcells : state.stack = cells, hcells' : state'.stack = cells' at hstack
  cases hstack with
  | nil => exact .stuck _
  | cons hcell hrest => exact .ok le_rfl hcell ⟨hrest, hstate.locals, hstate.world⟩

/-- Putting something on top. -/
theorem sim_push {cell cell' : Cell} (h : CellRel place link cell cell') :
    Sim place link (fun _ _ _ => True) (push cell) (push cell') :=
  fun _ _ hstate => .ok le_rfl trivial ⟨.cons h hstate.stack, hstate.locals, hstate.world⟩

/-- Putting a value on top. -/
theorem sim_pushValue (h : ValueRel link value value') :
    Sim place link (fun _ _ _ => True) (pushValue value) (pushValue value') :=
  sim_push (.value h)

/-- Looking into a local variable. -/
theorem sim_load (slot : UInt16) : Sim place link (CellRel place) (load slot) (load slot) := by
  intro state state' hstate
  have hslot := hstate.locals slot
  unfold load
  generalize state.locals slot = found, state'.locals slot = found' at hslot
  cases hslot with
  | some hcell => exact .ok le_rfl hcell hstate
  | none => exact .stuck _

/-- Changing a local variable. -/
theorem sim_store {cell cell' : Cell} (slot : UInt16) (h : CellRel place link cell cell') :
    Sim place link (fun _ _ _ => True) (store slot cell) (store slot cell') := by
  intro state state' hstate
  refine .ok le_rfl trivial ⟨hstate.stack, ?_, hstate.world⟩
  intro other
  have hother := hstate.locals other
  have hwide : (state'.locals other).any (·.kind.isWide) =
      (state.locals other).any (·.kind.isWide) := by
    generalize state.locals other = found, state'.locals other = found' at hother
    cases hother with
    | some hcell => simp only [Option.any_some, hcell.kind_eq]
    | none => rfl
  simp only [storeIn, hwide, h.kind_eq]
  split
  · exact .some h
  split
  · exact .none
  split
  · exact .none
  · exact hother

/-- Looking at the world. -/
theorem sim_world : Sim place link WorldRel Machine.world Machine.world :=
  fun _ _ hstate => .ok le_rfl hstate.world hstate

/-- **Making objects.** -/
theorem sim_create {object object' : Object} (h : ObjectRel link object object') :
    Sim place link ValueRel (create object) (create object') := by
  intro state state' hstate
  have hmore : link ≤ link.grown state.world state'.world := fun _ _ h => .inl h
  exact .ok hmore (.object (.inr ⟨rfl, rfl⟩)) (hstate.withWorld hmore (hstate.world.add h))

/-- **Looking at an object.** -/
theorem sim_read {id id' : Nat} (h : link id id') :
    Sim place link ObjectRel (read id) (read id') := by
  intro state state' hstate
  obtain ⟨object, object', hobject, hobject', hrel⟩ := hstate.world.objects h
  simp only [Machine.read, hobject, hobject']
  exact .ok le_rfl hrel hstate

/-- **Changing an object.** -/
theorem sim_write {id id' : Nat} {object object' : Object} (h : link id id')
    (hobject : ObjectRel link object object') :
    Sim place link (fun _ _ _ => True) (write id object) (write id' object') :=
  fun _ _ hstate => .ok le_rfl trivial (hstate.withWorld le_rfl (hstate.world.set h hobject))

/-- Changing a field of a class. -/
theorem sim_writeStatic (field : FieldRef) (h : ValueRel link value value') :
    Sim place link (fun _ _ _ => True) (writeStatic field value) (writeStatic field value') := by
  intro state state' hstate
  have hworld : WorldRel link
      { state.world with statics := Function.update state.world.statics field value }
      { state'.world with statics := Function.update state'.world.statics field value' } :=
    ⟨hstate.world.objects, hstate.world.unique, valueRel_update hstate.world.statics field h⟩
  exact .ok le_rfl trivial (hstate.withWorld le_rfl hworld)

/-- A call that is left to the program around. -/
theorem sim_leave {around : Surroundings} {instruction instruction' : Instruction}
    (h : Respects around instruction instruction') {arguments arguments' : List Value}
    (harguments : List.Forall₂ (ValueRel link) arguments arguments') :
    Sim place link (fun more => Option.Rel (ValueRel more)) (leave around instruction arguments)
      (leave around instruction' arguments') := by
  intro state state' hstate
  have houtcome := h link arguments arguments' state.world state'.world harguments hstate.world
  unfold leave
  generalize around.call instruction arguments state.world = outcome,
    around.call instruction' arguments' state'.world = outcome' at houtcome
  cases houtcome with
  | returned hmore hvalue hworld => exact .ok hmore hvalue (hstate.withWorld hmore hworld)
  | threw hmore hexception hworld => exact .threw hmore hexception hworld
  | stuck outcome => exact .stuck _

/-- Work that may or may not be done, whatever its reason. -/
theorem Sim.ite {p p' : Prop} [Decidable p] [Decidable p'] (hp : p' ↔ p) {act other : Act α}
    {act' other' : Act β} (h : p → Sim place link R act act')
    (h' : ¬ p → Sim place link R other other') :
    Sim place link R (if p then act else other) (if p' then act' else other') := by
  by_cases hcase : p
  · rw [if_pos hcase, if_pos (hp.mpr hcase)]
    exact h hcase
  · rw [if_neg hcase, if_neg (hcase ∘ hp.mp)]
    exact h' hcase

end Sim

end Exchange

end Downlevel
