import Downlevel.Proofs.Exchange.Perform

/-!
# Constructors of the exception and what stands in for them

A constructor of the exception takes an object that was just created, a message and a cause, each if
it has one, and does nothing else.  What stands in for it puts the tag in front of the message and
calls a constructor of the other class.  The texts that are made on the way are not seen by the
first world.

* `constructor_cases` — what a constructor of the exception does, or else the machine gets stuck;
* `tagMessage_run` — the tag comes to stand in front of the message;
* `constructorCall_exchanges` — what stands in for a constructor takes corresponding states to
  corresponding ones.
-/

namespace Downlevel

namespace Exchange

open Machine

variable {around : Surroundings} {link : Link} {place : Nat → Nat} {α β : Type}

/-- Work follows on work that was done. -/
theorem bind_apply {act : Act α} {next : α → Act β} {state later : State} {a : α}
    (h : act state = .ok (a, later)) : (act >>= next) state = next a later := by
  change Except.bind (act state) (fun (a, s) => next a s) = _
  rw [h]
  rfl

/-- Nothing follows on work that got stuck. -/
theorem bind_stuck {act : Act α} {next : α → Act β} {state : State}
    (h : act state = .error .stuck) : (act >>= next) state = .error .stuck := by
  change Except.bind (act state) (fun (a, s) => next a s) = _
  rw [h]
  rfl

/-! ## Arguments -/

section Arguments

/-- Values are of the kinds of types. -/
abbrev OfKinds (types : List JavaType) (values : List Value) : Prop :=
  List.Forall₂ (fun type value => value.kind = type.kind) types values

/-- A value of a kind is taken. -/
theorem popKind_run {kind : ValueKind} {value : Value} (h : value.kind = kind) (rest : List Cell)
    (locals : UInt16 → Option Cell) (world : World) :
    popKind kind ⟨.value value :: rest, locals, world⟩ = .ok (value, ⟨rest, locals, world⟩) := by
  have hpop : popValue ⟨.value value :: rest, locals, world⟩ =
      .ok (value, ⟨rest, locals, world⟩) := rfl
  rw [popKind, bind_apply hpop, if_pos h]
  rfl

/-- Either there is a value of a kind on top, or the machine gets stuck. -/
theorem popKind_cases (kind : ValueKind) (state : State) : popKind kind state = .error .stuck ∨
    ∃ value rest, state.stack = .value value :: rest ∧ value.kind = kind := by
  obtain ⟨stack, locals, world⟩ := state
  rcases stack with _ | ⟨value | index, rest⟩
  · exact .inl rfl
  · by_cases hkind : value.kind = kind
    · exact .inr ⟨value, rest, rfl, hkind⟩
    · have hpop : popValue ⟨.value value :: rest, locals, world⟩ =
          .ok (value, ⟨rest, locals, world⟩) := rfl
      refine .inl ?_
      rw [popKind, bind_apply hpop, if_neg hkind]
      rfl
  · exact .inl rfl

/-- Arguments are taken. -/
theorem popArguments_run {types : List JavaType} {values : List Value} (h : OfKinds types values)
    (rest : List Cell) (locals : UInt16 → Option Cell) (world : World) :
    popArguments types ⟨values.map .value ++ rest, locals, world⟩ =
      .ok (values.reverse, ⟨rest, locals, world⟩) := by
  induction h with
  | nil => rfl
  | cons hkind hrest ih =>
      rw [popArguments, List.map_cons, List.cons_append,
        bind_apply (popKind_run hkind _ locals world), bind_apply ih, List.reverse_cons]
      rfl

/-- Either there are arguments on top, or the machine gets stuck. -/
theorem popArguments_cases (types : List JavaType) (state : State) :
    popArguments types state = .error .stuck ∨
      ∃ values rest, state.stack = values.map .value ++ rest ∧ OfKinds types values := by
  induction types generalizing state with
  | nil => exact .inr ⟨[], state.stack, rfl, .nil⟩
  | cons type types ih =>
      obtain ⟨stack, locals, world⟩ := state
      rcases popKind_cases type.kind ⟨stack, locals, world⟩ with
        hstuck | ⟨value, below, hstack, hkind⟩
      · exact .inl (bind_stuck hstuck)
      obtain rfl : stack = .value value :: below := hstack
      rcases ih ⟨below, locals, world⟩ with hstuck | ⟨values, rest, hbelow, hkinds⟩
      · refine .inl ?_
        rw [popArguments, bind_apply (popKind_run hkind below locals world), bind_stuck hstuck]
      · obtain rfl : below = values.map .value ++ rest := hbelow
        exact .inr ⟨value :: values, rest, rfl, .cons hkind hkinds⟩

end Arguments

/-! ## Constructors that the machine knows -/

section Known

variable {target : MethodRef} {type : MethodType} {instruction : Instruction}

/-- **A constructor of an exception** makes a new object an exception with a message and a cause. -/
theorem constructor_run (hname : target.name = MethodName.constructor)
    (hknown : isKnown target.owner = true)
    (hparse : MethodType.parse target.descriptor = .ok type) {values : List Value}
    (hkinds : OfKinds type.parameters.reverse values) {message cause : Option Value}
    (hgiven : given? target.descriptor values.reverse = some (message, cause)) {world : World}
    {id : Nat} {fields : FieldRef → Value}
    (hobject : world.heap[id]? = some (.record target.owner .created fields)) {text : Message}
    (htext : messageIn? world message = some text) (rest : List Cell)
    (locals : UInt16 → Option Cell) :
    callSpecial around instruction target
        ⟨values.map .value ++ .value (.object id) :: rest, locals, world⟩ =
      .ok (.behind, ⟨rest, locals, world.set id (.failure target.owner text cause)⟩) := by
  have hread : Machine.read id ⟨rest, locals, world⟩ =
      .ok (.record target.owner .created fields, ⟨rest, locals, world⟩) := by
    rw [Machine.read, hobject]
  have hfail : makeFailure id target.owner message cause ⟨rest, locals, world⟩ =
      .ok (none, ⟨rest, locals, world.set id (.failure target.owner text cause)⟩) := by
    have hworld : Machine.world ⟨rest, locals, world⟩ = .ok (world, ⟨rest, locals, world⟩) := rfl
    rw [makeFailure, bind_apply hworld, htext]
    rfl
  have hconstruct : construct around instruction target (.object id) values.reverse
      ⟨rest, locals, world⟩ =
      .ok (none, ⟨rest, locals, world.set id (.failure target.owner text cause)⟩) := by
    rw [construct, bind_apply hread]
    dsimp only
    rw [if_pos rfl, hgiven]
    dsimp only
    rw [if_pos hknown, hfail]
  have hreference : (Value.object id).kind = .reference := rfl
  rw [callSpecial, if_pos hname, hparse]
  dsimp only
  rw [bind_apply (popArguments_run hkinds _ locals world),
    bind_apply (popKind_run hreference rest locals world), bind_apply hconstruct]
  rfl

/-- A constructor of the exception gets stuck, unless its object was just created, and its message
is one. -/
theorem construct_cases (howner : target.owner = MatchFailure.exception) {arguments : List Value}
    {message cause : Option Value}
    (hgiven : given? target.descriptor arguments = some (message, cause)) (receiver : Value)
    (state : State) :
    construct around instruction target receiver arguments state = .error .stuck ∨
      ∃ id fields text, receiver = .object id ∧
        state.world.heap[id]? = some (.record target.owner .created fields) ∧
        messageIn? state.world message = some text := by
  cases receiver with
  | number n | null | constant c => exact .inl rfl
  | object id =>
      cases hheap : state.world.heap[id]? with
      | none =>
          refine .inl (bind_stuck ?_)
          rw [Machine.read, hheap]
      | some object =>
          have hread : Machine.read id state = .ok (object, state) := by rw [Machine.read, hheap]
          rw [construct, bind_apply hread]
          cases object with
          | text value | failure cls text cause | array cls elements => exact .inl rfl
          | record cls progress fields =>
              cases progress with
              | ready => exact .inl rfl
              | entered =>
                  dsimp only
                  rw [if_pos howner]
                  exact .inl rfl
              | created =>
                  dsimp only
                  by_cases hcls : cls = target.owner
                  · obtain rfl := hcls
                    have hknown : isKnown target.owner = true := by rw [howner]; rfl
                    rw [if_pos rfl, hgiven]
                    dsimp only
                    rw [if_pos hknown]
                    cases htext : messageIn? state.world message with
                    | some text => exact .inr ⟨id, fields, text, rfl, hheap, rfl⟩
                    | none =>
                        have hworld : Machine.world state = .ok (state.world, state) := rfl
                        rw [makeFailure, bind_apply hworld, htext]
                        exact .inl rfl
                  · rw [if_neg hcls]
                    exact .inl rfl

/-- **A constructor of the exception that the machine knows gets stuck**, unless it finds its
arguments and an object of its class on the stack. -/
theorem constructor_cases (hname : target.name = MethodName.constructor)
    (howner : target.owner = MatchFailure.exception)
    (hparse : MethodType.parse target.descriptor = .ok type)
    (hgiven : ∀ values, OfKinds type.parameters.reverse values →
      ∃ given, given? target.descriptor values.reverse = some given) (state : State) :
    callSpecial around instruction target state = .error .stuck ∨
      ∃ values id rest fields message cause text,
        state.stack = values.map .value ++ .value (.object id) :: rest ∧
        OfKinds type.parameters.reverse values ∧
        state.world.heap[id]? = some (.record target.owner .created fields) ∧
        given? target.descriptor values.reverse = some (message, cause) ∧
        messageIn? state.world message = some text := by
  obtain ⟨stack, locals, world⟩ := state
  rw [callSpecial, if_pos hname, hparse]
  dsimp only
  rcases popArguments_cases type.parameters.reverse ⟨stack, locals, world⟩ with
    hstuck | ⟨values, below, hstack, hkinds⟩
  · exact .inl (bind_stuck hstuck)
  obtain rfl : stack = values.map .value ++ below := hstack
  rw [bind_apply (popArguments_run hkinds below locals world)]
  rcases popKind_cases .reference ⟨below, locals, world⟩ with
    hstuck | ⟨receiver, rest, hstack, hreference⟩
  · exact .inl (bind_stuck hstuck)
  obtain rfl : below = .value receiver :: rest := hstack
  rw [bind_apply (popKind_run hreference rest locals world)]
  obtain ⟨⟨message, cause⟩, hfound⟩ := hgiven values hkinds
  rcases construct_cases howner hfound receiver ⟨rest, locals, world⟩ with
    hstuck | ⟨id, fields, text, rfl, hobject, htext⟩
  · exact .inl (bind_stuck hstuck)
  · exact .inr ⟨values, id, rest, fields, message, cause, text, rfl, hkinds, hobject, hfound, htext⟩

end Known

/-! ## What stands in for constructors -/

section StandIn

/-- Performs instructions one after the other, of which the first is at an index.  All of them go on
with the next one. -/
def performAll (around : Surroundings) (index : Nat) : List Instruction → Act Unit
  | [] => pure ()
  | instruction :: rest => do
      match ← perform around index instruction with
      | .behind => performAll around (index + 1) rest
      | _ => stuck

/-- An instruction is performed, then the rest. -/
theorem performAll_cons {index : Nat} {instruction : Instruction} {rest : List Instruction}
    {state later : State} (h : perform around index instruction state = .ok (.behind, later)) :
    performAll around index (instruction :: rest) state =
      performAll around (index + 1) rest later :=
  bind_apply h

/-- Where instructions are performed one after the other, the first one goes on with the next. -/
theorem performAll_cons_ok {index : Nat} {instruction : Instruction} {rest : List Instruction}
    {state later : State} (h : performAll around index (instruction :: rest) state = .ok ((), later)) :
    ∃ middle, perform around index instruction state = .ok (.behind, middle) ∧
      performAll around (index + 1) rest middle = .ok ((), later) := by
  cases hperform : perform around index instruction state with
  | error stop =>
      have herror : performAll around index (instruction :: rest) state = .error stop := by
        change Except.bind (perform around index instruction state) _ = _
        rw [hperform]
        rfl
      rw [herror] at h
      cases h
  | ok result =>
      obtain ⟨next, middle⟩ := result
      rw [performAll, bind_apply hperform] at h
      cases next with
      | behind => exact ⟨middle, rfl, h⟩
      | jump target | back index | finish value => cases h

/-- Instructions are performed, then others. -/
theorem performAll_append {index : Nat} {front back : List Instruction} {state later : State}
    (h : performAll around index front state = .ok ((), later)) :
    performAll around index (front ++ back) state =
      performAll around (index + front.length) back later := by
  induction front generalizing index state with
  | nil =>
      cases h
      rfl
  | cons instruction rest ih =>
      obtain ⟨middle, hperform, hrest⟩ := performAll_cons_ok h
      rw [List.cons_append, performAll_cons hperform, ih hrest, List.length_cons,
        Nat.add_right_comm, Nat.add_assoc]

/-- The tag as a value. -/
def tagValue : Value :=
  .constant (.string (JavaString.ofString MatchFailure.tag))

/-- A text is a reference. -/
theorem kind_of_textOf? {world : World} {value : Value} {text : JavaString}
    (h : world.textOf? value = some text) : value.kind = .reference := by
  cases value with
  | number n => cases h
  | null | constant c | object id => rfl

/-- A message is a reference. -/
theorem kind_of_messageOf? {world : World} {value : Value} {text : Option JavaString}
    (h : world.messageOf? value = some text) : value.kind = .reference := by
  cases value with
  | number n => cases h
  | null | constant c | object id => rfl

section Pieces

variable (around : Surroundings) (index : Nat) (rest : List Cell) (locals : UInt16 → Option Cell)

section Message

variable {world : World} {value : Value}

/-- A message is made a text. -/
theorem valueOf_run {text : Option JavaString} (h : world.messageOf? value = some text) :
    ∃ written, world.textOf? written = some (text.getD Running.nullText) ∧
      perform around index (.invokestatic valueOf false) ⟨.value value :: rest, locals, world⟩ =
        .ok (.behind, ⟨.value written :: rest, locals, world⟩) := by
  have hparse : MethodType.parse valueOf.descriptor =
      .ok ⟨[.object ClassName.javaObject], some (.object ClassName.javaString)⟩ := by
    cbv
  have hkinds : OfKinds [.object ClassName.javaObject] [value] :=
    .cons (kind_of_messageOf? h) .nil
  obtain ⟨written, htext, hwritten⟩ : ∃ written,
      world.textOf? written = some (text.getD Running.nullText) ∧
      written? world (.invokestatic valueOf false) [value] = some (.old written) := by
    by_cases hnull : value = .null
    · obtain rfl := hnull
      cases h
      exact ⟨.constant (.string Running.nullText), rfl, by rw [written?, if_pos rfl, if_pos rfl]⟩
    · have hfound : ∃ found, world.textOf? value = some found ∧ text = some found := by
        cases value with
        | null => exact absurd rfl hnull
        | number n => cases h
        | constant c | object id =>
            obtain ⟨found, hfound, rfl⟩ := Option.map_eq_some_iff.mp h
            exact ⟨found, hfound, rfl⟩
      obtain ⟨found, hfound, rfl⟩ := hfound
      refine ⟨value, hfound, ?_⟩
      rw [written?, if_pos rfl, if_neg hnull, hfound]
      rfl
  have hinvoke : invoke around (.invokestatic valueOf false) [value] ⟨rest, locals, world⟩ =
      .ok (some written, ⟨rest, locals, world⟩) := by
    have hworld : Machine.world ⟨rest, locals, world⟩ = .ok (world, ⟨rest, locals, world⟩) := rfl
    rw [invoke, bind_apply hworld, hwritten]
    rfl
  refine ⟨written, htext, ?_⟩
  change callStatic around (.invokestatic valueOf false) valueOf.descriptor _ = _
  rw [callStatic, hparse]
  exact (bind_apply (popArguments_run hkinds rest locals world)).trans (bind_apply hinvoke)

/-- A text is put in front of another one. -/
theorem concat_run {front back : JavaString} {first second : Value}
    (hfront : world.textOf? first = some front) (hback : world.textOf? second = some back) :
    ∃ written world', world'.textOf? written = some (front.append back) ∧
      (world' = world ∨ ∃ object, world' = world.add object) ∧
      perform around index (.invokevirtual concat)
          ⟨.value second :: .value first :: rest, locals, world⟩ =
        .ok (.behind, ⟨.value written :: rest, locals, world'⟩) := by
  have hparse : MethodType.parse concat.descriptor =
      .ok ⟨[.object ClassName.javaString], some (.object ClassName.javaString)⟩ := by
    cbv
  have hkinds : OfKinds [.object ClassName.javaString] [second] :=
    .cons (kind_of_textOf? hback) .nil
  have hpop : popObject ⟨.value first :: rest, locals, world⟩ =
      .ok (first, ⟨rest, locals, world⟩) := by
    have hnull : first ≠ .null := by
      rintro rfl
      cases hfront
    rw [popObject, bind_apply (popKind_run (kind_of_textOf? hfront) rest locals world),
      if_neg hnull]
    rfl
  have hwritten : written? world (.invokevirtual concat) [first, second] =
      some (if back.units = [] then .old first else .new (front.append back)) := by
    rw [written?, if_pos rfl, hfront, hback]
  obtain ⟨written, world', htext, hworld', hinvoke⟩ : ∃ written world',
      world'.textOf? written = some (front.append back) ∧
      (world' = world ∨ ∃ object, world' = world.add object) ∧
      invoke around (.invokevirtual concat) [first, second] ⟨rest, locals, world⟩ =
        .ok (some written, ⟨rest, locals, world'⟩) := by
    have hworld : Machine.world ⟨rest, locals, world⟩ = .ok (world, ⟨rest, locals, world⟩) := rfl
    rw [invoke, bind_apply hworld, hwritten]
    by_cases hempty : back.units = []
    · have happend : front.append back = front := by
        rw [JavaString.append, hempty, List.append_nil]
      rw [if_pos hempty, happend]
      exact ⟨first, world, hfront, .inl rfl, rfl⟩
    · rw [if_neg hempty]
      refine ⟨.object world.heap.length, world.add (.text (front.append back)), ?_,
        .inr ⟨_, rfl⟩, rfl⟩
      simp [World.textOf?, World.add]
  refine ⟨written, world', htext, hworld', ?_⟩
  change callOn around (.invokevirtual concat) concat _ = _
  rw [callOn, hparse]
  exact (bind_apply (popArguments_run hkinds (.value first :: rest) locals world)).trans
    ((bind_apply hpop).trans (bind_apply hinvoke))

end Message

/-- Two references are exchanged. -/
theorem swap_run (world : World) {first second : Value} (hfirst : first.kind = .reference)
    (hsecond : second.kind = .reference) :
    perform around index (.op .swap) ⟨.value first :: .value second :: rest, locals, world⟩ =
      .ok (.behind, ⟨.value second :: .value first :: rest, locals, world⟩) := by
  have hpop : ∀ (value : Value) (below : List Cell), value.kind = .reference →
      popSlots 1 ⟨.value value :: below, locals, world⟩ =
        .ok ([.value value], ⟨below, locals, world⟩) := by
    intro value below hkind
    have hsplit : splitSlots 1 (.value value :: below) = some ([.value value], below) := by
      have hwide : (Cell.value value).kind.isWide = false := congrArg ValueKind.isWide hkind
      cases below <;> simp [splitSlots, hwide]
    rw [popSlots, hsplit]
  exact (bind_apply (hpop first _ hfirst)).trans (bind_apply (hpop second _ hsecond))

/-- A constant text is put on the stack. -/
theorem text_run (world : World) (text : String) :
    perform around index (Fragment.text text) ⟨rest, locals, world⟩ =
      .ok (.behind, ⟨.value (.constant (.string (JavaString.ofString text))) :: rest, locals,
        world⟩) :=
  rfl

/-- **The tag comes to stand in front of a message.** -/
theorem tagMessage_run {world : World} {value : Value} {text : Option JavaString} (h : world.messageOf? value = some text) :
    ∃ written world', world'.textOf? written = some (tagged (.given text)) ∧
      (world' = world ∨ ∃ object, world' = world.add object) ∧
      performAll around index MatchFailure.tagMessage ⟨.value value :: rest, locals, world⟩ =
        .ok ((), ⟨.value written :: rest, locals, world'⟩) := by
  obtain ⟨plain, hplain, hvalueOf⟩ := valueOf_run around index rest locals h
  have htag : world.textOf? tagValue = some (JavaString.ofString MatchFailure.tag) := rfl
  obtain ⟨written, world', hwritten, hworld, hconcat⟩ :=
    concat_run around (index + 3) rest locals htag hplain
  refine ⟨written, world', hwritten, hworld, ?_⟩
  have htext := text_run around (index + 1) (.value plain :: rest) locals world MatchFailure.tag
  have hswap := swap_run around (index + 2) rest locals world (kind_of_textOf? htag)
    (kind_of_textOf? hplain)
  exact (performAll_cons hvalueOf).trans ((performAll_cons htext).trans
    ((performAll_cons hswap).trans (performAll_cons hconcat)))

end Pieces

end StandIn

/-! ## Constructors and what stands in for them -/

section Exchanged

/-- A world with at most one more object, which is a text nobody has seen. -/
def IsGrown (world later : World) : Prop :=
  later = world ∨ ∃ object, later = world.add object

/-- Objects stay where they are. -/
theorem IsGrown.heap {world later : World} (h : IsGrown world later) {id : Nat} {object : Object}
    (hobject : world.heap[id]? = some object) : later.heap[id]? = some object := by
  rcases h with rfl | ⟨added, rfl⟩
  · exact hobject
  · exact (List.getElem?_append_left (List.getElem?_eq_some_iff.mp hobject).1).trans hobject

/-- Worlds still correspond when the second one has grown. -/
theorem IsGrown.worldRel {world world' later : World} (h : IsGrown world' later)
    (hworld : WorldRel link world world') : WorldRel link world later := by
  rcases h with rfl | ⟨object, rfl⟩
  · exact hworld
  · exact hworld.add_right object

variable (around : Surroundings) (index : Nat) (onInterface : Bool) (rest : List Cell)
  (locals : UInt16 → Option Cell) {world : World} {id : Nat} {fields : FieldRef → Value}

/-- A text is a message. -/
theorem messageIn?_of_text {value : Value} {text : JavaString}
    (h : world.textOf? value = some text) :
    messageIn? world (some value) = some (.given (some text)) := by
  cases value with
  | null | number n => cases h
  | constant c | object id => simp only [messageIn?, World.messageOf?, h, Option.map_some]

/-- A message is given to a new object of the class that stands in. -/
theorem message_run {value : Value} {text : JavaString} (htext : world.textOf? value = some text)
    (hobject : world.heap[id]? =
      some (.record MatchFailure.replacement .created fields)) :
    perform around index (.invokespecial
        ⟨MatchFailure.replacement, MethodName.constructor, "(Ljava/lang/String;)V"⟩ onInterface)
        ⟨.value value :: .value (.object id) :: rest, locals, world⟩ =
      .ok (.behind, ⟨rest, locals,
        world.set id (.failure MatchFailure.replacement (.given (some text)) none)⟩) := by
  let target : MethodRef :=
    ⟨MatchFailure.replacement, MethodName.constructor, "(Ljava/lang/String;)V"⟩
  let type : MethodType := ⟨[.object ClassName.javaString], none⟩
  have hparse : MethodType.parse target.descriptor = .ok type := by cbv
  have hkinds : OfKinds type.parameters.reverse [value] := .cons (kind_of_textOf? htext) .nil
  have hgiven : given? target.descriptor [value] = some (some value, none) := rfl
  exact constructor_run rfl rfl hparse hkinds hgiven hobject (messageIn?_of_text htext) rest locals

/-- A message and a cause are given to a new object of the class that stands in. -/
theorem messageAndCause_run {value cause : Value} {text : JavaString}
    (htext : world.textOf? value = some text) (hcause : cause.kind = .reference)
    (hobject : world.heap[id]? =
      some (.record MatchFailure.replacement .created fields)) :
    perform around index (.invokespecial
        ⟨MatchFailure.replacement, MethodName.constructor,
          "(Ljava/lang/String;Ljava/lang/Throwable;)V"⟩ onInterface)
        ⟨.value cause :: .value value :: .value (.object id) :: rest, locals, world⟩ =
      .ok (.behind, ⟨rest, locals,
        world.set id (.failure MatchFailure.replacement (.given (some text)) (some cause))⟩) := by
  let target : MethodRef := ⟨MatchFailure.replacement, MethodName.constructor,
    "(Ljava/lang/String;Ljava/lang/Throwable;)V"⟩
  let type : MethodType := ⟨[.object ClassName.javaString, .object ClassName.javaThrowable], none⟩
  have hparse : MethodType.parse target.descriptor = .ok type := by cbv
  have hkinds : OfKinds type.parameters.reverse [cause, value] :=
    .cons hcause (.cons (kind_of_textOf? htext) .nil)
  have hgiven : given? target.descriptor [value, cause] = some (some value, some cause) := rfl
  exact constructor_run rfl rfl hparse hkinds hgiven hobject (messageIn?_of_text htext) rest locals

/-- **What stands in for a constructor makes a new object an exception** with the tagged message and
the cause. -/
theorem constructorCall_run {descriptor : MethodDescriptor} {values : List Value}
    {message cause : Option Value}
    (hgiven : given? descriptor values.reverse = some (message, cause))
    (hkinds : ∀ value ∈ values, value.kind = .reference) {text : Message}
    (htext : messageIn? world message = some text)
    (hobject : world.heap[id]? = some (.record MatchFailure.replacement .created fields)) :
    ∃ later, IsGrown world later ∧
      performAll around index (MatchFailure.constructorCall descriptor onInterface)
          ⟨values.map .value ++ .value (.object id) :: rest, locals, world⟩ =
        .ok ((), ⟨rest, locals, later.set id
          (.failure MatchFailure.replacement (.given (some (tagged text))) cause)⟩) := by
  obtain ⟨arguments, rfl⟩ : ∃ arguments, values = List.reverse arguments :=
    ⟨values.reverse, values.reverse_reverse.symm⟩
  rw [List.reverse_reverse] at hgiven
  rcases arguments with _ | ⟨value, _ | ⟨reason, _ | ⟨third, more⟩⟩⟩
  · have hdescriptor : descriptor = "()V" := by
      by_contra hne
      simp [given?, hne] at hgiven
    subst hdescriptor
    cases hgiven
    cases htext
    refine ⟨world, .inl rfl, ?_⟩
    have hpushed := text_run around index (.value (.object id) :: rest) locals world
      MatchFailure.bareTag
    have htag : world.textOf? (.constant (.string (JavaString.ofString MatchFailure.bareTag))) =
      some (tagged .absent) := rfl
    have hmessage := message_run around (index + 1) onInterface rest locals htag hobject
    exact (performAll_cons hpushed).trans (performAll_cons hmessage)
  · have hdescriptor : descriptor = "(Ljava/lang/String;)V" := by
      by_contra hne
      simp [given?, hne] at hgiven
    subst hdescriptor
    cases hgiven
    obtain ⟨found, hfound, rfl⟩ := Option.map_eq_some_iff.mp htext
    obtain ⟨written, later, hwritten, hlater, htag⟩ := tagMessage_run around index
      (.value (.object id) :: rest) locals hfound
    have hmessage := message_run around (index + 4) onInterface rest locals hwritten
      (IsGrown.heap hlater hobject)
    exact ⟨later, hlater, (performAll_append htag).trans (performAll_cons hmessage)⟩
  · have hdescriptor : descriptor = "(Ljava/lang/String;Ljava/lang/Throwable;)V" := by
      by_contra hne
      simp [given?, hne] at hgiven
    subst hdescriptor
    cases hgiven
    obtain ⟨found, hfound, rfl⟩ := Option.map_eq_some_iff.mp htext
    have hvalue : value.kind = .reference := hkinds value (by simp)
    have hreason : reason.kind = .reference := hkinds reason (by simp)
    obtain ⟨written, later, hwritten, hlater, htag⟩ := tagMessage_run around (index + 1)
      (.value reason :: .value (.object id) :: rest) locals hfound
    have hfront := swap_run around index (.value (.object id) :: rest) locals world hreason hvalue
    have hback := swap_run around (index + 5) (.value (.object id) :: rest) locals later
      (kind_of_textOf? hwritten) hreason
    have hmessage := messageAndCause_run around (index + 6) onInterface rest locals hwritten hreason
      (IsGrown.heap hlater hobject)
    have htagged : performAll around index (.op .swap :: MatchFailure.tagMessage)
        ⟨.value reason :: .value value :: .value (.object id) :: rest, locals, world⟩ = _ :=
      (performAll_cons hfront).trans htag
    exact ⟨later, hlater, (performAll_append htagged).trans
      ((performAll_cons hback).trans (performAll_cons hmessage))⟩
  · cases hgiven

end Exchanged

section Corresponding

/-- The parameters of the constructors that the machine knows are references. -/
def IsKnownDescriptor (descriptor : MethodDescriptor) : Prop :=
  descriptor = "()V" ∨ descriptor = "(Ljava/lang/String;)V" ∨
    descriptor = "(Ljava/lang/String;Ljava/lang/Throwable;)V"

instance (descriptor : MethodDescriptor) : Decidable (IsKnownDescriptor descriptor) :=
  inferInstanceAs (Decidable (_ ∨ _ ∨ _))

/-- A constructor that the machine does not know is left to the program around. -/
theorem given?_eq_none {descriptor : MethodDescriptor} (h : ¬ IsKnownDescriptor descriptor)
    (arguments : List Value) : given? descriptor arguments = none := by
  obtain ⟨hbare, hmessage, hcause⟩ : descriptor ≠ "()V" ∧ descriptor ≠ "(Ljava/lang/String;)V" ∧
      descriptor ≠ "(Ljava/lang/String;Ljava/lang/Throwable;)V" := by
    simpa [IsKnownDescriptor] using h
  rcases arguments with _ | ⟨message, _ | ⟨cause, _ | ⟨third, rest⟩⟩⟩
  · exact if_neg hbare
  · exact if_neg hmessage
  · exact if_neg hcause
  · rfl

/-- A constructor that the machine knows takes references, whatever they are. -/
theorem IsKnownDescriptor.exists_type {descriptor : MethodDescriptor}
    (h : IsKnownDescriptor descriptor) : ∃ type, MethodType.parse descriptor = .ok type ∧
      ∀ values, OfKinds type.parameters.reverse values →
        (∃ given, given? descriptor values.reverse = some given) ∧
          ∀ value ∈ values, value.kind = .reference := by
  rcases h with rfl | rfl | rfl
  · refine ⟨⟨[], none⟩, by cbv, ?_⟩
    intro values hkinds
    cases hkinds
    exact ⟨⟨_, rfl⟩, by simp⟩
  · refine ⟨⟨[.object ClassName.javaString], none⟩, by cbv, ?_⟩
    intro values hkinds
    obtain _ | ⟨hmessage, _ | _⟩ := hkinds
    refine ⟨⟨_, rfl⟩, ?_⟩
    intro value hvalue
    obtain rfl := List.mem_singleton.mp hvalue
    exact hmessage
  · refine ⟨⟨[.object ClassName.javaString, .object ClassName.javaThrowable], none⟩, by cbv, ?_⟩
    intro values hkinds
    obtain _ | ⟨hcause, _ | ⟨hmessage, _ | _⟩⟩ := hkinds
    refine ⟨⟨_, rfl⟩, ?_⟩
    intro value hvalue
    rcases List.mem_cons.mp hvalue with rfl | hvalue
    · exact hcause
    · obtain rfl := List.mem_singleton.mp hvalue
      exact hmessage

/-- Of values that are the same each corresponds to one. -/
theorem exists_related {values values' : List Value}
    (h : List.Forall₂ (ValueRel link) values values') {value' : Value} (hvalue' : value' ∈ values') :
    ∃ value ∈ values, ValueRel link value value' := by
  induction h with
  | nil => cases hvalue'
  | cons hhead hrest ih =>
      rcases List.mem_cons.mp hvalue' with rfl | hvalue'
      · exact ⟨_, List.mem_cons_self, hhead⟩
      · obtain ⟨value, hvalue, hrel⟩ := ih hvalue'
        exact ⟨value, List.mem_cons_of_mem _ hvalue, hrel⟩

/-- Stacks that are the same have the same values on top. -/
theorem stack_split {values : List Value} {below cells' : List Cell}
    (h : List.Forall₂ (CellRel place link) (values.map .value ++ below) cells') :
    ∃ values' below', cells' = values'.map .value ++ below' ∧
      List.Forall₂ (ValueRel link) values values' ∧
      List.Forall₂ (CellRel place link) below below' := by
  induction values generalizing cells' with
  | nil => exact ⟨[], cells', rfl, .nil, h⟩
  | cons value values ih =>
      obtain _ | ⟨⟨hvalue⟩, hrest⟩ := h
      obtain ⟨values', below', rfl, hvalues, hbelow⟩ := ih hrest
      exact ⟨_ :: values', below', rfl, .cons hvalue hvalues, hbelow⟩

/-- A new exception corresponds to a new object of the class that stands in. -/
theorem exists_created {world world' : World} (hworld : WorldRel link world world') {id id' : Nat}
    (hlink : link id id') {fields : FieldRef → Value}
    (h : world.heap[id]? = some (.record MatchFailure.exception .created fields)) :
    ∃ fields', world'.heap[id']? =
      some (.record MatchFailure.replacement .created fields') := by
  obtain ⟨object, object', hobject, hobject', hrel⟩ := hworld.objects hlink
  rw [h] at hobject
  cases hobject
  cases hrel with
  | record cls progress hfields => exact ⟨_, hobject'⟩

/-- **What stands in for a constructor of the exception does the same** to states that correspond:
either the machine gets stuck at the constructor, or both go on, in states that correspond. -/
theorem constructorCall_exchanges (around : Surroundings) {descriptor : MethodDescriptor}
    (hdescriptor : IsKnownDescriptor descriptor) (onInterface : Bool) (index index' : Nat)
    {state state' : State} (hstate : StateRel place link state state') :
    perform around index (.invokespecial
        ⟨MatchFailure.exception, MethodName.constructor, descriptor⟩ onInterface) state =
        .error .stuck ∨
      ∃ later later', perform around index (.invokespecial
          ⟨MatchFailure.exception, MethodName.constructor, descriptor⟩ onInterface) state =
          .ok (.behind, later) ∧
        performAll around index' (MatchFailure.constructorCall descriptor onInterface) state' =
          .ok ((), later') ∧ StateRel place link later later' := by
  let target : MethodRef := ⟨MatchFailure.exception, MethodName.constructor, descriptor⟩
  obtain ⟨type, hparse, hgiven⟩ := hdescriptor.exists_type
  obtain ⟨stack, locals, world⟩ := state
  obtain ⟨stack', locals', world'⟩ := state'
  obtain ⟨hstack, hlocals, hworld⟩ := hstate
  have hcases : callSpecial around (.invokespecial target onInterface) target
      ⟨stack, locals, world⟩ = .error .stuck ∨ _ :=
    constructor_cases rfl rfl hparse (fun values hkinds => (hgiven values hkinds).1) _
  rcases hcases with hstuck | ⟨values, id, rest, fields, message, cause, text, hvalues, hkinds,
    hobject, hfound, htext⟩
  · exact .inl hstuck
  obtain rfl : stack = values.map .value ++ .value (.object id) :: rest := hvalues
  obtain ⟨values', below', rfl, hargs, hbelow⟩ := stack_split hstack
  obtain ⟨id', rest', rfl, hlink, hrest⟩ : ∃ id' rest',
      below' = .value (.object id') :: rest' ∧ link id id' ∧
        List.Forall₂ (CellRel place link) rest rest' := by
    obtain _ | ⟨⟨hvalue⟩, hrest⟩ := hbelow
    cases hvalue with
    | object hlink => exact ⟨_, _, rfl, hlink, hrest⟩
  obtain ⟨fields', hobject'⟩ := exists_created hworld hlink hobject
  obtain ⟨⟨message', cause'⟩, hfound', hmessage, hcause⟩ : ∃ given',
      given? descriptor values'.reverse = some given' ∧
        Option.Rel (ValueRel link) message given'.1 ∧ Option.Rel (ValueRel link) cause given'.2 := by
    have hrel := given?_rel descriptor (List.rel_reverse hargs)
    rw [hfound] at hrel
    generalize given? descriptor values'.reverse = found' at hrel
    cases hrel with
    | some hgivens => exact ⟨_, rfl, hgivens.message, hgivens.cause⟩
  have htext' : messageIn? world' message' = some text := (messageIn?_eq hworld hmessage).trans htext
  have hkinds' : ∀ value ∈ values', value.kind = .reference := by
    intro value' hvalue'
    obtain ⟨value, hvalue, hrel⟩ := exists_related hargs hvalue'
    exact hrel.kind_eq.trans ((hgiven values hkinds).2 value hvalue)
  obtain ⟨later, hlater, hrun⟩ := constructorCall_run around index' onInterface rest' locals' hfound'
    hkinds' htext' hobject'
  refine .inr ⟨_, _, constructor_run rfl rfl hparse hkinds hfound hobject htext rest locals, hrun,
    hrest, hlocals, ?_⟩
  exact (hlater.worldRel hworld).set hlink (.exchanged text hcause)

end Corresponding

end Exchange

end Downlevel
