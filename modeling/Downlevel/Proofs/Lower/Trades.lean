import Downlevel.Proofs.Balance
import Downlevel.Proofs.Running.BootstrapCall
import Downlevel.Proofs.Running.Building

/-!
# What fragments do to the stack

Passes put new methods together from fragments, and each fragment does something simple to the stack:
it takes a number of values and gives a number of others.  So what a body does to the stack is found
by adding up what its fragments do, whatever the arguments and handles are that it is made for.

* `Sketch.Leads`, `Sketch.Trades` — what instructions one behind the other do to the stack;
* `Sketch.Chained` — blocks, each of which may go on with the next one;
* `Code.balanced_of_leads`, `Code.balanced_of_chained` — code of such instructions and blocks;
* `Fragment.trades_adapt` — a value is adapted in its place;
* `Constants.trades_callBootstrap` — **a call of a bootstrap method leaves one value**.
-/

namespace Downlevel

namespace Sketch

variable {sketch : Sketch} {seen : List Label} {outline behind : Outline} {instruction : Instruction}
  {rest : List Labelled}

/-- Going past an instruction without a label. -/
theorem walk_plain (h : outline.behind? sketch.narrow instruction = some behind)
    (htargets : ∀ target ∈ instruction.targets, sketch.outlines target = some behind) :
    sketch.walk ⟨some outline, seen⟩ (instruction.plain :: rest) =
      sketch.walk ⟨if instruction.isUnconditional then none else some behind,
        instruction.targets ++ seen⟩ rest := by
  have hstep : sketch.step ⟨some outline, seen⟩ instruction.plain =
      some ⟨if instruction.isUnconditional then none else some behind,
        instruction.targets ++ seen⟩ :=
    step_eq_some.mpr ⟨outline, behind, rfl, h, htargets, by
      rw [Instruction.plain, handlersAt, List.append_nil]⟩
  rw [walk, List.foldlM_cons, hstep]
  rfl

/-- Instructions lead from what is on the stack before them to what is behind them, or end the execution,
and execution can go from them to some labels. -/
def Leads (sketch : Sketch) (instructions : List Instruction) (before : Outline)
    (behind : Option Outline) (targets : List Label) : Prop :=
  ∀ seen rest, sketch.walk ⟨some before, seen⟩ (instructions.map Instruction.plain ++ rest) =
    sketch.walk ⟨behind, targets ++ seen⟩ rest

/-- Instructions take `taken` values from the stack and give `given` others, and execution goes on
behind them. -/
def Trades (sketch : Sketch) (instructions : List Instruction) (taken given : Nat) : Prop :=
  ∀ outline : Outline, taken ≤ outline.length → ∃ left : Outline, left.length = given ∧
    sketch.Leads instructions outline (some (left ++ outline.drop taken)) []

section Leading

variable {front back : List Instruction} {before between : Outline} {after : Option Outline}
  {targets targets' : List Label}

/-- Instructions and others behind them. -/
theorem Leads.append (h : sketch.Leads front before (some between) targets)
    (h' : sketch.Leads back between after targets') :
    sketch.Leads (front ++ back) before after (targets' ++ targets) := by
  intro seen rest
  rw [List.map_append, List.append_assoc, h, h', List.append_assoc]

/-- One instruction. -/
theorem leads_one (h : before.behind? sketch.narrow instruction = some behind)
    (htargets : ∀ target ∈ instruction.targets, sketch.outlines target = some behind) :
    sketch.Leads [instruction] before (if instruction.isUnconditional then none else some behind)
      instruction.targets :=
  fun _ _ => walk_plain h htargets

/-- One instruction that trades values. -/
theorem leads_trade {taken : Nat} {given : Outline}
    (htrade : instruction.trade? sketch.narrow = some (taken, given)) (hroom : taken ≤ before.length)
    (hbehind : given ++ before.drop taken = behind)
    (htargets : ∀ target ∈ instruction.targets, sketch.outlines target = some behind) :
    sketch.Leads [instruction] before (if instruction.isUnconditional then none else some behind)
      instruction.targets := by
  refine leads_one ?_ htargets
  rw [Outline.behind_of_trade htrade, if_pos hroom, hbehind]

/-- One instruction that trades values and behind which execution goes on. -/
theorem leads_plain {taken : Nat} {given : Outline}
    (htrade : instruction.trade? sketch.narrow = some (taken, given)) (hroom : taken ≤ before.length)
    (hbehind : given ++ before.drop taken = behind) (htargets : instruction.targets = [])
    (hgoes : instruction.isUnconditional = false) :
    sketch.Leads [instruction] before (some behind) [] := by
  have hleads := leads_trade htrade hroom hbehind (by simp [htargets])
  rwa [htargets, if_neg (by simp [hgoes])] at hleads

/-- A branch behind other instructions. -/
theorem Leads.branch (h : sketch.Leads front before (some between) targets) {condition : Condition}
    {label : Label} {count : Nat} (hcount : (if condition.isBinary then 2 else 1) = count)
    (hroom : count ≤ between.length) (hbehind : between.drop count = behind)
    (hlabel : sketch.outlines label = some behind) :
    sketch.Leads (front ++ [.branch condition label]) before (some behind) (label :: targets) := by
  have htrade : Instruction.trade? sketch.narrow (.branch condition label) = some (count, []) := by
    rw [← hcount]
    rfl
  refine h.append (leads_trade htrade hroom hbehind fun target hmem => ?_)
  rw [List.mem_singleton.mp hmem]
  exact hlabel

end Leading

variable {front back instructions : List Instruction} {taken given : Nat}

/-- No instructions do nothing. -/
theorem Trades.nil (count : Nat) : sketch.Trades [] count count := by
  intro outline hroom
  refine ⟨outline.take count, List.length_take_of_le hroom, fun seen rest => ?_⟩
  rw [List.take_append_drop]
  rfl

/-- What is taken from the values given before is there. -/
theorem Trades.append {between : Nat} (h : sketch.Trades front taken between)
    (h' : sketch.Trades back between given) : sketch.Trades (front ++ back) taken given := by
  intro outline hroom
  obtain ⟨first, hfirst, hfront⟩ := h outline hroom
  have hmore : between ≤ (first ++ outline.drop taken).length := by
    rw [List.length_append]
    omega
  obtain ⟨left, hleft, hback⟩ := h' (first ++ outline.drop taken) hmore
  have hall := hfront.append hback
  rw [List.drop_left' hfirst] at hall
  exact ⟨left, hleft, hall⟩

/-- Values below those that are taken stay. -/
theorem Trades.below (h : sketch.Trades instructions taken given) (count : Nat) :
    sketch.Trades instructions (taken + count) (given + count) := by
  intro outline hroom
  obtain ⟨left, hleft, hleads⟩ := h outline (by omega)
  have hcount : count ≤ (outline.drop taken).length := by
    rw [List.length_drop]
    omega
  refine ⟨left ++ (outline.drop taken).take count, ?_, ?_⟩
  · rw [List.length_append, List.length_take_of_le hcount, hleft]
  · rwa [List.append_assoc, ← List.drop_drop, List.take_append_drop]

/-- Values are put on others. -/
theorem Trades.puts {first second : Nat} (h : sketch.Trades front 0 first)
    (h' : sketch.Trades back 0 second) : sketch.Trades (front ++ back) 0 (first + second) := by
  have hback := h'.below first
  rw [Nat.zero_add, Nat.add_comm] at hback
  exact h.append hback

/-- One instruction. -/
theorem trades_one {left : Outline} (htrade : instruction.trade? sketch.narrow = some (taken, left))
    (hgiven : left.length = given) (htargets : instruction.targets = [])
    (hgoes : instruction.isUnconditional = false) : sketch.Trades [instruction] taken given := by
  intro outline hroom
  exact ⟨left, hgiven, leads_plain htrade hroom rfl htargets hgoes⟩

/-- An instruction and others behind it. -/
theorem Trades.cons {between : Nat} (h : sketch.Trades [instruction] taken between)
    (h' : sketch.Trades back between given) : sketch.Trades (instruction :: back) taken given :=
  h.append h'

/-- Instructions that only give values. -/
theorem Trades.leads (h : sketch.Trades front 0 given) (outline : Outline) :
    ∃ left : Outline, left.length = given ∧ sketch.Leads front outline (some (left ++ outline)) [] :=
  h outline (Nat.zero_le _)

/-- Instructions that only give what the branch behind them takes. -/
theorem Trades.branch (h : sketch.Trades front 0 given) {condition : Condition}
    (hgiven : (if condition.isBinary then 2 else 1) = given) {label : Label}
    (hlabel : sketch.outlines label = some outline) :
    sketch.Leads (front ++ [.branch condition label]) outline (some outline) [label] := by
  obtain ⟨left, hleft, hleads⟩ := h.leads outline
  have hroom : given ≤ (left ++ outline).length := by
    rw [List.length_append]
    omega
  exact hleads.branch hgiven hroom (List.drop_left' hleft) hlabel

/-- Instructions that only give the value that is returned behind them. -/
theorem Trades.ends (h : sketch.Trades front 0 1) {operation : Op}
    (heffect : operation.effect = .exchange 1 none) (hends : (Instruction.op operation).isUnconditional = true)
    (outline : Outline) : sketch.Leads (front ++ [.op operation]) outline none [] := by
  obtain ⟨left, hleft, hleads⟩ := h.leads outline
  have htrade : (Instruction.op operation).trade? sketch.narrow = some (1, []) := by
    rw [Instruction.trade?, heffect]
    rfl
  have hroom : 1 ≤ (left ++ outline).length := by
    rw [List.length_append]
    omega
  have hlast := leads_trade htrade hroom rfl (List.forall_mem_nil _)
  rw [if_pos hends] at hlast
  exact hleads.append hlast

end Sketch

/-! ## Code of fragments -/

namespace Sketch

variable {sketch : Sketch}

/-- Going past instructions of which the first one carries a label, to which execution comes from the
instruction before or from an earlier one. -/
theorem Leads.walk_carrying {label : Label} {instructions : List Instruction} {before : Outline}
    {behind : Option Outline} {targets : List Label}
    (h : sketch.Leads instructions before behind targets) (hsome : instructions ≠ [])
    {course : Course} (hbefore : sketch.before? course (some label) = some before)
    (rest : List Labelled) :
    sketch.walk course (Labelled.carrying label instructions ++ rest) =
      sketch.walk ⟨behind, targets ++ (sketch.handlersAt (some label) ++ course.seen)⟩ rest := by
  cases instructions with
  | nil => exact absurd rfl hsome
  | cons first others =>
      rw [← h]
      have hstep : sketch.step course ⟨some label, first⟩ =
          sketch.step ⟨some before, sketch.handlersAt (some label) ++ course.seen⟩ first.plain := by
        unfold step
        rw [hbefore]
        simp only [before?, Instruction.plain, handlersAt, List.append_nil, List.append_assoc]
        rfl
      show sketch.walk course (⟨some label, first⟩ :: _) = sketch.walk _ (first.plain :: _)
      rw [walk, List.foldlM_cons, hstep]
      rfl

/-- Blocks that carry labels with numbers, each of which ends the execution after it could have gone to
the label of the next one. -/
inductive Chained (sketch : Sketch) : Nat → List (List Instruction) → Prop where
  | last {index : Nat} {block : List Instruction} {before : Outline} {targets : List Label}
      (nonempty : block ≠ []) (outline : sketch.outlines (.numbered index) = some before)
      (leads : sketch.Leads block before none targets) : Chained sketch index [block]
  | cons {index : Nat} {block : List Instruction} {blocks : List (List Instruction)}
      {before : Outline} {targets : List Label} (nonempty : block ≠ [])
      (outline : sketch.outlines (.numbered index) = some before)
      (leads : sketch.Leads block before none targets)
      (next : .numbered (index + 1) ∈ targets) (rest : Chained sketch (index + 1) blocks) :
      Chained sketch index (block :: blocks)

/-- Going past such blocks. -/
theorem Chained.walks {index : Nat} {blocks : List (List Instruction)}
    (h : sketch.Chained index blocks) {seen : List Label} (hseen : .numbered index ∈ seen) :
    ∃ seen', sketch.walk ⟨none, seen⟩ (Labelled.numbered index blocks) = some ⟨none, seen'⟩ := by
  have hcomes {label : Label} {before : Outline} {seen : List Label} (hseen : label ∈ seen)
      (houtline : sketch.outlines label = some before) :
      sketch.before? ⟨none, seen⟩ (some label) = some before := by
    rw [before?, if_pos hseen, houtline]
  induction h generalizing seen with
  | last hsome houtline hleads =>
      have hwalk := hleads.walk_carrying hsome (hcomes hseen houtline) []
      exact ⟨_, hwalk⟩
  | cons hsome houtline hleads hnext _ ih =>
      obtain ⟨seen', hrest⟩ := ih (List.mem_append_left _ hnext)
      exact ⟨seen', (hleads.walk_carrying hsome (hcomes hseen houtline) _).trans hrest⟩

end Sketch

namespace Code

variable {code : Code} {sketch : Sketch}

/-- Code without labels is balanced if its instructions end the execution. -/
theorem balanced_of_leads {instructions : List Instruction} {targets : List Label}
    (hresolves : (ofPieces (Piece.sequence instructions)).Resolves) (hranges : sketch.ranges = [])
    (h : sketch.Leads instructions [] none targets) :
    (ofPieces (Piece.sequence instructions)).Balanced sketch := by
  have hwalk := h [] []
  rw [List.append_nil] at hwalk
  rw [ofPieces_sequence] at hresolves ⊢
  exact ⟨hresolves, rfl, hranges.symm, nofun, nofun, _, hwalk⟩

/-- Code is balanced that is made up of chained blocks behind other instructions. -/
theorem balanced_of_chained {front : List Instruction} {blocks : List (List Instruction)}
    {targets : List Label} (hresolves : code.Resolves)
    (hcode : code = { instructions := front.map Instruction.plain ++ Labelled.numbered 0 blocks })
    (hranges : sketch.ranges = []) (hfront : sketch.Leads front [] none targets)
    (hfirst : .numbered 0 ∈ targets) (hblocks : sketch.Chained 0 blocks) : code.Balanced sketch := by
  subst hcode
  obtain ⟨seen, hwalk⟩ := hblocks.walks (List.mem_append_left [] hfirst)
  exact ⟨hresolves, rfl, hranges.symm, nofun, nofun, seen, (hfront _ _).trans hwalk⟩

end Code

/-! ## Fragments -/

namespace Fragment

variable {sketch : Sketch}

/-- What a call takes and gives is read off the descriptor. -/
theorem callTrade_of_parse {descriptor : MethodDescriptor} {type : MethodType} (receivers : Nat)
    (h : MethodType.parse descriptor = .ok type) :
    callTrade? receivers descriptor = some (type.parameters.length + receivers,
      type.result.toList.map fun result => (VType.ofType result).isNarrow) := by
  rw [callTrade?, h]

/-- What reading a field takes and gives is read off the descriptor. -/
theorem fieldTrade_of_parse {descriptor : FieldDescriptor} {type : JavaType} (receivers : Nat)
    (h : JavaType.parse descriptor = .ok type) :
    fieldTrade? receivers descriptor = some (receivers, [(VType.ofType type).isNarrow]) := by
  have htype : VType.ofDescriptor descriptor = .ok (VType.ofType type) := by
    rw [VType.ofDescriptor, h]
    rfl
  rw [fieldTrade?, htype]

/-- The value of a static field is put on the stack. -/
theorem trades_getStatic {owner : ClassName} {name : FieldName} {descriptor : FieldDescriptor}
    {type : JavaType} (h : JavaType.parse descriptor = .ok type) :
    sketch.Trades [.field .getStatic ⟨owner, name, descriptor⟩] 0 1 :=
  Sketch.trades_one (fieldTrade_of_parse 0 h) rfl rfl rfl

section Calls

variable {owner : ClassName} {name : MethodName} {descriptor : MethodDescriptor}
  {parameters : List JavaType} {returned : JavaType}
  (h : MethodType.parse descriptor = .ok ⟨parameters, some returned⟩)

include h

/-- A call of a static method takes one value for each parameter, and gives one. -/
theorem trades_invokestatic (onInterface : Bool) :
    sketch.Trades [.invokestatic ⟨owner, name, descriptor⟩ onInterface] parameters.length 1 :=
  Sketch.trades_one (callTrade_of_parse 0 h) rfl rfl rfl

/-- A call of a method takes the receiver as well. -/
theorem trades_invokevirtual :
    sketch.Trades [.invokevirtual ⟨owner, name, descriptor⟩] (parameters.length + 1) 1 :=
  Sketch.trades_one (callTrade_of_parse 1 h) rfl rfl rfl

end Calls

/-- A constant number is put on the stack. -/
theorem trades_int (value : Int32) : sketch.Trades [Fragment.int value] 0 1 := by
  unfold Fragment.int
  repeat' split
  all_goals exact Sketch.trades_one rfl rfl rfl rfl

/-- The class of a type is put on the stack. -/
theorem trades_classOf (type : JavaType) : sketch.Trades [classOf type] 0 1 := by
  unfold classOf
  cases type.wrapper? with
  | some wrapper =>
      have hparse : JavaType.parse "Ljava/lang/Class;" = .ok (.object ClassName.javaClass) := rfl
      exact trades_getStatic hparse
  | none => exact Sketch.trades_one rfl rfl rfl rfl

/-- The value in a local variable is put on the stack. -/
theorem trades_load (type : JavaType) (slot : UInt16) : sketch.Trades [load type slot] 0 1 := by
  unfold load
  cases type.kind <;> exact Sketch.trades_one rfl rfl rfl rfl

/-- A new object is put on the stack, and again. -/
theorem leads_new (cls : ClassName) (outline : Outline) :
    sketch.Leads [.new cls, .op .dup] outline (some (true :: true :: outline)) [] := by
  have htrade : (Instruction.new cls).trade? sketch.narrow = some (0, [true]) := rfl
  have hdup : sketch.Leads [.op .dup] (true :: outline) (some (true :: true :: outline)) [] :=
    Sketch.leads_one rfl (List.forall_mem_nil _)
  exact (Sketch.leads_plain htrade (Nat.zero_le _) rfl rfl rfl).append hdup

/-- A constructor is called on a new object, which stays on the stack. -/
theorem trades_constructor {owner : ClassName} {name : MethodName} {descriptor : MethodDescriptor}
    {parameters : List JavaType} (h : MethodType.parse descriptor = .ok ⟨parameters, none⟩)
    {arguments : List Instruction} (harguments : sketch.Trades arguments 0 parameters.length) :
    sketch.Trades
      ([.new owner, .op .dup] ++ arguments ++ [.invokespecial ⟨owner, name, descriptor⟩ false]) 0 1 := by
  intro outline _
  obtain ⟨left, hleft, hleads⟩ := harguments (true :: true :: outline) (Nat.zero_le _)
  have htrade : (Instruction.invokespecial ⟨owner, name, descriptor⟩ false).trade? sketch.narrow =
      some (parameters.length + 1, []) :=
    callTrade_of_parse 1 h
  have hroom : parameters.length + 1 ≤ (left ++ true :: true :: outline).length := by
    rw [List.length_append, hleft, List.length_cons]
    omega
  have hbehind : [] ++ (left ++ true :: true :: outline).drop (parameters.length + 1) =
      true :: outline := by
    rw [← List.drop_drop, List.drop_left' hleft]
    rfl
  have hcall := Sketch.leads_plain htrade hroom hbehind rfl rfl
  exact ⟨[true], rfl, ((leads_new owner outline).append hleads).append hcall⟩

/-- A new object is put on the stack and constructed. -/
theorem trades_construct (cls : ClassName) : sketch.Trades (construct cls) 0 1 := by
  have hparse : MethodType.parse "()V" = .ok ⟨[], none⟩ := by cbv
  exact trades_constructor hparse (.nil 0)

/-- A primitive value is boxed. -/
theorem trades_box (type : JavaType) : sketch.Trades (box type) 1 1 := by
  cases hwrapper : type.wrapper? with
  | none =>
      have hbox : box type = [] := by rw [box, hwrapper]
      rw [hbox]
      exact .nil 1
  | some wrapper =>
      obtain ⟨cls, method⟩ := wrapper
      obtain ⟨base, rfl, hbase⟩ := JavaType.exists_base hwrapper
      have hbox : box ⟨0, base⟩ = [Tracing.boxing ⟨0, base⟩ cls] := by
        rw [box, hwrapper]
        rfl
      rw [hbox]
      exact trades_invokestatic (Tracing.parse_box hbase) false

/-- A reference is taken for a box, or cast. -/
theorem trades_unboxOrCast (type : JavaType) : sketch.Trades (unboxOrCast type) 1 1 := by
  unfold unboxOrCast
  cases hwrapper : type.wrapper? with
  | some wrapper =>
      obtain ⟨cls, method⟩ := wrapper
      obtain ⟨base, rfl, hbase⟩ := JavaType.exists_base hwrapper
      have hparse : JavaType.parse (JavaType.write ⟨0, base⟩) = .ok ⟨0, base⟩ := by
        cases base with
        | object name => cases hbase
        | _ => rfl
      have hcast : sketch.Trades [.checkcast cls] 1 1 := Sketch.trades_one rfl rfl rfl rfl
      exact hcast.append (trades_invokevirtual (Tracing.parse_noParameters hparse))
  | none =>
      dsimp only
      split
      next name _ =>
        split
        next => exact .nil 1
        next => exact Sketch.trades_one rfl rfl rfl rfl
      next => exact .nil 1

/-- **A value is adapted** in its place. -/
theorem trades_adapt {source target : JavaType} {instructions : List Instruction}
    (h : adapt source target = .ok instructions) : sketch.Trades instructions 1 1 := by
  unfold adapt at h
  split at h
  next =>
    cases h
    exact .nil 1
  next =>
    split at h
    next =>
      cases h
      refine (trades_box source).append ?_
      split
      next =>
        cases target.internalName? with
        | none => exact .nil 1
        | some name => exact Sketch.trades_one rfl rfl rfl rfl
      next => exact .nil 1
    next =>
      cases h
      exact trades_unboxOrCast target
    next =>
      split at h
      next =>
        cases h
        exact .nil 1
      next => exact absurd h fail_ne_ok

/-- A value is appended to the string builder below it, which stays. -/
theorem trades_append (type : JavaType) : sketch.Trades [append type] 2 1 := by
  have hparse (overload : Running.Overload) : ∃ parameter,
      MethodType.parse overload.descriptor =
        .ok ⟨[parameter], some (.object ClassName.stringBuilder)⟩ := by
    cases overload <;> exact ⟨_, by cbv⟩
  obtain ⟨parameter, hparameter⟩ := hparse (Running.Overload.ofType type)
  rw [Running.Overload.append_eq]
  exact trades_invokevirtual hparameter

/-- A constant string is appended to the string builder on the stack. -/
theorem trades_appendString (value : JavaString) : sketch.Trades (appendString value) 1 1 := by
  have hload : sketch.Trades [.ldc (.string value)] 0 1 := Sketch.trades_one rfl rfl rfl rfl
  exact (hload.below 1).append (trades_append _)

end Fragment

/-! ## Calls of bootstrap methods -/

namespace Constants

variable {sketch : Sketch} {cls : ClassFile} {found found' : Found}

/-- As many leading arguments are put on the stack as there are parameters for. -/
theorem trades_loadLeading {values : List (JavaType × Instruction)} {parameters : List JavaType}
    {instructions : List Instruction} (hvalues : ∀ value ∈ values, sketch.Trades [value.2] 0 1)
    (h : loadLeading values parameters = .ok instructions) :
    sketch.Trades instructions 0 (min values.length parameters.length) := by
  induction values generalizing parameters instructions with
  | nil =>
      cases h
      rw [List.length_nil, Nat.zero_min]
      exact .nil 0
  | cons value values ih =>
      cases parameters with
      | nil =>
          cases h
          exact .nil 0
      | cons parameter parameters =>
          simp only [loadLeading, bind_eq_ok, pure_eq_ok] at h
          obtain ⟨adapted, hadapted, others, hothers, rfl⟩ := h
          obtain ⟨hfirst, hrest⟩ := List.forall_mem_cons.mp hvalues
          have hhere := hfirst.cons (Fragment.trades_adapt hadapted)
          have hall := hhere.puts (ih hrest hothers)
          rwa [Nat.add_comm, ← Nat.add_min_add_right] at hall

/-- There are three leading arguments. -/
theorem length_values {leading : Leading} {values : List (JavaType × Instruction)}
    (h : leading.values = .ok values) : values.length = 3 := by
  cases leading with
  | ofConstant constant =>
      simp only [Leading.values, bind_eq_ok, pure_eq_ok] at h
      obtain ⟨type, -, rfl⟩ := h
      rfl
  | passedOn =>
      cases h
      rfl

/-- Each of the leading arguments is put on the stack by its instruction. -/
theorem trades_values {leading : Leading} {values : List (JavaType × Instruction)}
    (h : leading.values = .ok values) : ∀ value ∈ values, sketch.Trades [value.2] 0 1 := by
  cases leading with
  | ofConstant constant =>
      simp only [Leading.values, bind_eq_ok, pure_eq_ok] at h
      obtain ⟨type, -, rfl⟩ := h
      have hlookup : sketch.Trades [.invokestatic ⟨"java/lang/invoke/MethodHandles", "lookup",
          "()Ljava/lang/invoke/MethodHandles$Lookup;"⟩ false] 0 1 := by
        have hparse : MethodType.parse "()Ljava/lang/invoke/MethodHandles$Lookup;" =
            .ok ⟨[], some (.object ClassName.methodLookup)⟩ := by cbv
        exact Fragment.trades_invokestatic hparse false
      have hname : sketch.Trades [Fragment.text constant.name] 0 1 :=
        Sketch.trades_one rfl rfl rfl rfl
      simp [hlookup, hname, Fragment.trades_classOf]
  | passedOn =>
      cases h
      have hload (slot : UInt16) : sketch.Trades [Fragment.aload slot] 0 1 :=
        Sketch.trades_one rfl rfl rfl rfl
      simp [hload]

/-- A static argument is put on the stack. -/
theorem trades_loadArgument {argument : Loadable} {parameter : JavaType}
    {instructions : List Instruction}
    (h : loadArgument cls argument parameter found = .ok (instructions, found')) :
    sketch.Trades instructions 0 1 := by
  unfold loadArgument at h
  cases hargument : dynamic? argument with
  | none =>
      simp only [hargument, work_bind_eq_ok, work_lift_eq_ok, work_pure_eq_ok] at h
      obtain ⟨_, _, ⟨rfl, rfl⟩, type, _, ⟨-, rfl⟩, adapted, _, ⟨hadapted, rfl⟩, rfl, rfl⟩ := h
      have hload : sketch.Trades [.ldc argument] 0 1 := Sketch.trades_one rfl rfl rfl rfl
      exact hload.cons (Fragment.trades_adapt hadapted)
  | some constant =>
      simp only [hargument, work_bind_eq_ok, work_lift_eq_ok, work_pure_eq_ok] at h
      obtain ⟨_, _, hload, type, _, ⟨htype, rfl⟩, adapted, _, ⟨hadapted, rfl⟩, rfl, rfl⟩ := h
      obtain ⟨-, access, -, rfl⟩ := load_asks hload
      refine Sketch.Trades.cons ?_ (Fragment.trades_adapt hadapted)
      cases access with
      | null => exact Sketch.trades_one rfl rfl rfl rfl
      | accessor name =>
          have hparse : JavaType.parse constant.descriptor = .ok type :=
            (type_of_dynamic hargument).symm.trans htype
          exact Fragment.trades_invokestatic (Tracing.parse_noParameters hparse) _

/-- Static arguments for which there are parameters are put on the stack. -/
theorem trades_loadArguments {arguments : List Loadable} {parameters : List JavaType}
    {instructions : List Instruction} (hlength : parameters.length ≤ arguments.length)
    (h : loadArguments cls arguments parameters found = .ok (instructions, found')) :
    sketch.Trades instructions 0 parameters.length := by
  induction arguments generalizing parameters instructions found with
  | nil =>
      obtain ⟨rfl, -⟩ := work_pure_eq_ok.mp h
      obtain rfl := List.length_eq_zero_iff.mp (Nat.le_zero.mp hlength)
      exact .nil 0
  | cons argument rest ih =>
      cases parameters with
      | nil =>
          obtain ⟨rfl, -⟩ := work_pure_eq_ok.mp h
          exact .nil 0
      | cons parameter parameters =>
          simp only [loadArguments, work_bind_eq_ok, work_pure_eq_ok] at h
          obtain ⟨first, t, hfirst, others, t', hothers, rfl, rfl⟩ := h
          have hhere : sketch.Trades first 0 1 := trades_loadArgument hfirst
          have hall := hhere.puts (ih (Nat.le_of_succ_le_succ hlength) hothers)
          rwa [Nat.add_comm] at hall

/-- Static arguments are stored in the array on the stack, which stays there. -/
theorem leads_storeArguments {element : JavaType} {index : Nat} {arguments : List Loadable}
    {instructions : List Instruction}
    (h : storeArguments cls element index arguments found = .ok (instructions, found'))
    (outline : Outline) :
    sketch.Leads instructions (true :: outline) (some (true :: outline)) [] := by
  induction arguments generalizing index instructions found with
  | nil =>
      obtain ⟨rfl, -⟩ := work_pure_eq_ok.mp h
      exact fun _ _ => rfl
  | cons argument arguments ih =>
      simp only [storeArguments, work_bind_eq_ok, work_pure_eq_ok] at h
      obtain ⟨loaded, t, hloaded, others, t', hothers, rfl, rfl⟩ := h
      have hdup : sketch.Leads [.op .dup] (true :: outline) (some (true :: true :: outline)) [] :=
        Sketch.leads_one rfl (List.forall_mem_nil _)
      have hputs : sketch.Trades ([Fragment.int (Int32.ofNat index)] ++ loaded) 0 2 :=
        (Fragment.trades_int _).puts (trades_loadArgument hloaded)
      obtain ⟨left, hleft, hvalues⟩ := hputs (true :: true :: outline) (Nat.zero_le _)
      have hroom : 3 ≤ (left ++ true :: true :: outline).length := by
        rw [List.length_append, hleft, List.length_cons]
        omega
      have hdrop : (left ++ true :: true :: outline).drop 3 = true :: outline := by
        rw [List.drop_append, hleft, List.drop_eq_nil_of_le (by omega)]
        rfl
      have htrade : (Instruction.op .aastore).trade? sketch.narrow = some (3, []) := rfl
      have hstore := Sketch.leads_plain htrade hroom hdrop rfl rfl
      have hsplit : Instruction.op .dup :: Fragment.int (Int32.ofNat index) :: loaded ++
          .op .aastore :: others = [.op .dup] ++ ([Fragment.int (Int32.ofNat index)] ++ loaded) ++
            [.op .aastore] ++ others := by
        simp
      rw [hsplit]
      exact ((hdup.append hvalues).append hstore).append (ih hothers)

/-- Arguments are collected in a new array. -/
theorem trades_collectArguments {array : JavaType} {arguments : List Loadable}
    {instructions : List Instruction}
    (h : collectArguments cls array arguments found = .ok (instructions, found')) :
    sketch.Trades instructions 0 1 := by
  obtain ⟨_, name, stored, -, -, hstored, rfl⟩ := collectArguments_run h
  intro outline hroom
  have hint : sketch.Trades [Fragment.int (Int32.ofNat arguments.length)] 0 1 :=
    Fragment.trades_int _
  obtain ⟨left, hleft, hlength⟩ := hint outline hroom
  have hmore : 1 ≤ (left ++ outline).length := by
    rw [List.length_append]
    omega
  have htrade : (Instruction.anewarray name).trade? sketch.narrow = some (1, [true]) := rfl
  have hbehind : [true] ++ (left ++ outline).drop 1 = true :: outline := by
    rw [List.drop_left' hleft]
    rfl
  have hnew := Sketch.leads_plain htrade hmore hbehind rfl rfl
  exact ⟨[true], rfl, (hlength.append hnew).append (leads_storeArguments hstored outline)⟩

/-- The static arguments are put on the stack, one value for each parameter. -/
theorem trades_loadStatic {arguments : List Loadable} {parameters : List JavaType}
    {instructions : List Instruction}
    (h : loadStatic cls arguments parameters found = .ok (instructions, found')) :
    sketch.Trades instructions 0 parameters.length := by
  rcases loadStatic_run h with ⟨rfl, rfl, rfl⟩ | ⟨-, -, hlength, hloaded⟩ |
    ⟨singles, array, loaded, t, collected, rfl, -, hlength, hloaded, hcollect, rfl⟩
  · exact .nil 0
  · exact trades_loadArguments (Nat.le_of_eq hlength.symm) hloaded
  · rw [List.length_append, List.length_singleton]
    exact (trades_loadArguments hlength hloaded).puts (trades_collectArguments hcollect)

/-- A call through a handle of a method that is not a constructor takes one value for each parameter, and
gives one. -/
theorem trades_call {bootstrap : Handle} {parameters : List JavaType} {returned : JavaType}
    (hparameters : bootstrap.parameterTypes = .ok parameters)
    (hreturned : bootstrap.resultType = .ok (some returned))
    (hnew : ∀ target, bootstrap ≠ .method .newSpecial target) :
    sketch.Trades [bootstrap.call] parameters.length 1 := by
  cases bootstrap with
  | field use target =>
      cases use with
      | getField | getStatic =>
          cases hparameters
          simp only [Handle.resultType, bind_eq_ok, pure_eq_ok] at hreturned
          obtain ⟨type, hparse, -⟩ := hreturned
          exact Sketch.trades_one (Fragment.fieldTrade_of_parse _ hparse) rfl rfl rfl
      | putField | putStatic => cases hreturned
  | method use target =>
      cases use with
      | newSpecial => exact absurd rfl (hnew target)
      | static onInterface | virtual | special | interface =>
          simp only [Handle.parameterTypes, Handle.resultType, bind_eq_ok, pure_eq_ok]
            at hparameters hreturned
          obtain ⟨type, hparse, rfl⟩ := hparameters
          obtain ⟨_, hparse', hresult⟩ := hreturned
          cases hparse.symm.trans hparse'
          have hone : (type.result.toList.map fun result =>
              (VType.ofType result).isNarrow).length = 1 := by
            rw [hresult]
            rfl
          exact Sketch.trades_one (Fragment.callTrade_of_parse _ hparse) hone rfl rfl

end Constants

/-- A handle of a constructor has a descriptor of a method without a result. -/
def Handle.ConstructsVoid (handle : Handle) : Prop :=
  ∀ target type, handle = .method .newSpecial target →
    MethodType.parse target.descriptor = .ok type → type.result = none

namespace Constants

variable {sketch : Sketch} {cls : ClassFile} {found found' : Found}

/-- **A call of a bootstrap method leaves one value on the stack**, whatever its arguments are. -/
theorem trades_callBootstrap {bootstrap : Handle} {leading : Leading} {arguments : List Loadable}
    {result : JavaType} {instructions : List Instruction} (hvoid : bootstrap.ConstructsVoid)
    (h : callBootstrap cls bootstrap leading arguments result found = .ok (instructions, found')) :
    sketch.Trades instructions 0 1 := by
  obtain ⟨parameters, values, first, rest, returned, converted, hparameters, hvalues, hfirst, hrest,
    hreturned, hconverted, rfl⟩ := callBootstrap_run h
  have hthree := length_values hvalues
  have harguments : sketch.Trades (first ++ rest) 0 parameters.length := by
    have hleading : sketch.Trades first 0 (min values.length parameters.length) :=
      trades_loadLeading (trades_values hvalues) hfirst
    have hall := hleading.puts (trades_loadStatic hrest)
    have hcount : min values.length parameters.length + (parameters.drop 3).length =
        parameters.length := by
      rw [hthree, List.length_drop]
      omega
    rwa [hcount] at hall
  have hcalled : sketch.Trades (bootstrap.beforeArguments ++ (first ++ rest) ++ [bootstrap.call])
      0 1 := by
    by_cases hnew : ∃ target, bootstrap = .method .newSpecial target
    · obtain ⟨target, rfl⟩ := hnew
      simp only [Handle.parameterTypes, bind_eq_ok, pure_eq_ok] at hparameters
      obtain ⟨⟨parameters, result⟩, hparse, rfl⟩ := hparameters
      obtain rfl : result = none := hvoid target _ rfl hparse
      exact Fragment.trades_constructor hparse harguments
    · have hother : ∀ target, bootstrap ≠ .method .newSpecial target := not_exists.mp hnew
      have hbefore : bootstrap.beforeArguments = [] := by
        rcases bootstrap with _ | ⟨_ | _ | _ | _ | _, target⟩
        case method.newSpecial => exact absurd rfl (hother target)
        all_goals rfl
      rw [hbefore, List.nil_append]
      exact harguments.append (trades_call hparameters hreturned hother)
  have hsplit : bootstrap.beforeArguments ++ first ++ rest ++ bootstrap.call :: converted =
      bootstrap.beforeArguments ++ (first ++ rest) ++ [bootstrap.call] ++ converted := by
    simp
  rw [hsplit]
  exact hcalled.append (Fragment.trades_adapt hconverted)

end Constants

end Downlevel
