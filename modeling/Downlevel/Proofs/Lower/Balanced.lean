import Downlevel.Proofs.Accessor.Listing
import Downlevel.Proofs.Lower.Trades
import Downlevel.Proofs.Running.Record
import Downlevel.Proofs.Running.Switch

/-!
# The code that passes write is balanced

Where the code of a new method has labels, the outline there is always the same: nothing is on the stack,
but for the object that is compared at the first label of `equals`, and the exception at the handler of
an accessor.

* `Concat.balanced_generate`, `Constants.balanced_bouncerCode` — code without labels;
* `Switch.balanced_body`, `Record.balanced_equalsBody` — blocks, each of which may go on with the next
  one;
* `Constants.balanced_accessorCode` — the code of an accessor, with its handler.
-/

namespace Downlevel

/-- What is expected of code without labels. -/
def Sketch.straight : Sketch :=
  ⟨false, fun _ => none, []⟩

/-! ## Concatenation -/

namespace Concat

variable {sketch : Sketch}

/-- The parts of a recipe are appended to the string builder on the stack. -/
theorem trades_appendParts {subject : Subject} {parts : List Part} {parameters : List JavaType}
    {slot : UInt16} {constants : List Loadable} {instructions : List Instruction}
    (h : appendParts subject parts parameters slot constants = .ok instructions) :
    sketch.Trades instructions 1 1 := by
  have happend {load : Instruction} (hload : sketch.Trades [load] 0 1) (type : JavaType) :
      sketch.Trades [load, Fragment.append type] 1 1 :=
    (hload.below 1).append (Fragment.trades_append type)
  induction parts generalizing parameters slot constants instructions with
  | nil =>
      cases h
      exact .nil 1
  | cons part rest ih =>
      cases part with
      | literal text =>
          simp only [appendParts, bind_eq_ok, pure_eq_ok] at h
          obtain ⟨others, hothers, rfl⟩ := h
          exact (Fragment.trades_appendString text).append (ih hothers)
      | argument =>
          cases parameters with
          | nil => exact absurd h fail_ne_ok
          | cons parameter parameters =>
              simp only [appendParts, bind_eq_ok, pure_eq_ok] at h
              obtain ⟨others, hothers, rfl⟩ := h
              exact (happend (Fragment.trades_load parameter slot) parameter).append (ih hothers)
      | constant =>
          cases constants with
          | nil => exact absurd h fail_ne_ok
          | cons constant constants =>
              simp only [appendParts, bind_eq_ok, pure_eq_ok] at h
              obtain ⟨type, -, others, hothers, rfl⟩ := h
              have hload : sketch.Trades [.ldc constant] 0 1 := Sketch.trades_one rfl rfl rfl rfl
              exact (happend hload type).append (ih hothers)

/-- The string is taken from the string builder on the stack, and returned. -/
theorem leads_returnBuilt {front : List Instruction} (h : sketch.Trades front 0 1) :
    sketch.Leads (front ++ Fragment.returnBuilt) [] none [] := by
  have hparse : MethodType.parse "()Ljava/lang/String;" =
      .ok ⟨[], some (.object ClassName.javaString)⟩ := by cbv
  have hstring : sketch.Trades
      [.invokevirtual ⟨ClassName.stringBuilder, "toString", "()Ljava/lang/String;"⟩] 1 1 :=
    Fragment.trades_invokevirtual hparse
  have hends : sketch.Leads (front ++ [.invokevirtual
      ⟨ClassName.stringBuilder, "toString", "()Ljava/lang/String;"⟩] ++ [.op .areturn]) [] none [] :=
    (h.append hstring).ends rfl rfl []
  rwa [List.append_assoc] at hends

/-- The code for a recipe leads to its end. -/
theorem leads_body {descriptor : MethodDescriptor} {recipe : JavaString} {constants : List Loadable}
    {code : Code} (h : body descriptor recipe constants = .ok code) :
    ∃ instructions, code = Code.ofPieces (Piece.sequence instructions) ∧
      sketch.Leads instructions [] none [] := by
  simp only [body, bind_eq_ok, pure_eq_ok] at h
  obtain ⟨type, -, appended, happended, rfl⟩ := h
  exact ⟨_, rfl,
    leads_returnBuilt ((Fragment.trades_construct _).append (trades_appendParts happended))⟩

/-- **The code that concatenates is balanced.** -/
theorem balanced_generate {site : CallSite} {code : Code} (h : generate site = .ok (some code))
    (hresolves : code.Resolves) : code.Balanced .straight := by
  have hleads : ∃ instructions, code = Code.ofPieces (Piece.sequence instructions) ∧
      Sketch.straight.Leads instructions [] none [] := by
    unfold generate at h
    split at h
    next =>
      simp only [bind_eq_ok, pure_eq_ok, Option.some.injEq] at h
      obtain ⟨type, -, body, hbody, rfl⟩ := h
      exact leads_body hbody
    next =>
      split at h
      next =>
        split at h
        next =>
          cases h
          have htext : Sketch.straight.Trades [Fragment.text ""] 0 1 :=
            Sketch.trades_one rfl rfl rfl rfl
          exact ⟨_, rfl, htext.ends rfl rfl []⟩
        next =>
          simp only [bind_eq_ok, pure_eq_ok, Option.some.injEq] at h
          obtain ⟨body, hbody, rfl⟩ := h
          exact leads_body hbody
        next => cases h
      next => cases h
  obtain ⟨instructions, rfl, hleads⟩ := hleads
  exact Code.balanced_of_leads hresolves rfl hleads

end Concat

namespace Constants

/-- **The code of a bouncer is balanced.** -/
theorem balanced_bouncerCode {cls : ClassFile} {bouncer : Bouncer} {found found' : Found}
    {code : Code} (hvoid : bouncer.bootstrap.ConstructsVoid)
    (h : bouncerCode cls bouncer found = .ok (code, found')) (hresolves : code.Resolves) :
    code.Balanced .straight := by
  simp only [bouncerCode, work_bind_eq_ok, work_pure_eq_ok] at h
  obtain ⟨call, t, hcall, rfl, rfl⟩ := h
  have htrades : Sketch.straight.Trades call 0 1 := trades_callBootstrap hvoid hcall
  exact Code.balanced_of_leads hresolves rfl (htrades.ends rfl rfl [])

end Constants

/-! ## Switches -/

namespace Switch

/-- What is expected of the code of a switch: nothing stands on the stack before an instruction with a
label. -/
def sketch : Sketch :=
  ⟨false, fun _ => some [], []⟩

/-- The value in variable 0 is put on the stack. -/
theorem trades_value : sketch.Trades [Fragment.aload 0] 0 1 :=
  Sketch.trades_one rfl rfl rfl rfl

/-- Two texts on the stack are compared. -/
theorem trades_equals : sketch.Trades
    [.invokevirtual ⟨ClassName.javaString, "equals", "(Ljava/lang/Object;)Z"⟩] 2 1 := by
  have hparse : MethodType.parse "(Ljava/lang/Object;)Z" =
      .ok ⟨[.object ClassName.javaObject], some .boolean⟩ := by cbv
  exact Fragment.trades_invokevirtual hparse

/-- The value in variable 0 is looked at as an instance of a class, or execution goes to a label. -/
theorem leads_instanceOf (cls : ClassName) (miss : Label) :
    sketch.Leads [Fragment.aload 0, .instanceof cls, .branch .eq miss] [] (some []) [miss] := by
  have htest : sketch.Trades [.instanceof cls] 1 1 := Sketch.trades_one rfl rfl rfl rfl
  exact (trades_value.append htest).branch rfl rfl

/-- **A test goes on with nothing on the stack**, or goes to a label. -/
theorem leads_test (miss : Label) (item : Case) :
    ∃ targets, sketch.Leads (test miss item) [] (some []) targets := by
  have hcast (cls : ClassName) : sketch.Trades [Fragment.aload 0, .checkcast cls] 0 1 := by
    have hcast : sketch.Trades [.checkcast cls] 1 1 := Sketch.trades_one rfl rfl rfl rfl
    exact trades_value.append hcast
  have htext (value : JavaString) : sketch.Trades [.ldc (.string value)] 0 1 :=
    Sketch.trades_one rfl rfl rfl rfl
  -- what is behind the test for the class puts what it compares on the stack, and branches
  have hcompare {cls : ClassName} {front : List Instruction} {condition : Condition} {given : Nat}
      (hfront : sketch.Trades front 0 given) (hgiven : (if condition.isBinary then 2 else 1) = given) :
      ∃ targets, sketch.Leads ([Fragment.aload 0, .instanceof cls, .branch .eq miss] ++
        (front ++ [.branch condition miss])) [] (some []) targets :=
    ⟨_, (leads_instanceOf cls miss).append (hfront.branch hgiven rfl)⟩
  cases item with
  | int value =>
      have hnumber : MethodType.parse "()I" = .ok ⟨[], some .int⟩ := by cbv
      have hint : sketch.Trades [.invokevirtual ⟨"java/lang/Integer", "intValue", "()I"⟩] 1 1 :=
        Fragment.trades_invokevirtual hnumber
      exact hcompare (((hcast "java/lang/Integer").append hint).puts (Fragment.trades_int value)) rfl
  | text value =>
      exact hcompare (((htext value).puts (hcast ClassName.javaString)).append trades_equals) rfl
  | instanceOf cls => exact ⟨_, leads_instanceOf cls miss⟩
  | enumConstant owner name =>
      have htextual : MethodType.parse "()Ljava/lang/String;" =
          .ok ⟨[], some (.object ClassName.javaString)⟩ := by cbv
      have hname : sketch.Trades [.invokevirtual ⟨owner, "name", "()Ljava/lang/String;"⟩] 1 1 :=
        Fragment.trades_invokevirtual htextual
      exact hcompare (((htext name).puts ((hcast owner).append hname)).append trades_equals) rfl

/-- **The block of a case ends the execution**, or goes to the next one. -/
theorem leads_caseInstructions (index : Nat) (item : Case) :
    ∃ targets, sketch.Leads (caseInstructions index item) [] none targets ∧
      label (index + 1) ∈ targets := by
  have hint (value : Int32) : sketch.Trades [Fragment.int value] 0 1 := Fragment.trades_int value
  have hstart : sketch.Trades [.load .int 1] 0 1 := Sketch.trades_one rfl rfl rfl rfl
  obtain ⟨targets, htest⟩ := leads_test (label (index + 1)) item
  have hfront : sketch.Leads [Fragment.int (Int32.ofNat index), .load .int 1,
      .branch .icmplt (label (index + 1))] [] (some []) [label (index + 1)] :=
    ((hint _).puts hstart).branch rfl rfl
  exact ⟨_, (hfront.append htest).append ((hint _).ends rfl rfl []), by simp⟩

/-- The blocks of a switch are chained. -/
theorem chained_blocks (index : Nat) (cases : List Case) :
    sketch.Chained index (blocks index cases) := by
  induction cases generalizing index with
  | nil =>
      have hlast : sketch.Leads (lastInstructions index) [] none [] :=
        (Fragment.trades_int _).ends rfl rfl []
      exact .last (by simp [lastInstructions]) rfl hlast
  | cons item rest ih =>
      obtain ⟨targets, hleads, hnext⟩ := leads_caseInstructions index item
      exact .cons (by simp [caseInstructions]) rfl hleads hnext (ih (index + 1))

/-- **The code of a switch is balanced.** -/
theorem balanced_body {cases : List Case} (hresolves : (body cases).Resolves) :
    (body cases).Balanced sketch := by
  have hnull : sketch.Leads nullInstructions [] none [label 0] :=
    (trades_value.branch rfl rfl).append ((Fragment.trades_int (-1)).ends rfl rfl [])
  exact Code.balanced_of_chained hresolves (body_eq cases) rfl hnull (List.mem_singleton.mpr rfl)
    (chained_blocks 0 cases)

end Switch

/-! ## Records -/

namespace Record

variable {sketch : Sketch} {cls : ClassName} {component : Component} {components : List Component}
  {type : JavaType} {instructions : List Instruction}

/-- A component is put on the stack. -/
theorem trades_loadComponent (slot : UInt16) (h : JavaType.parse component.descriptor = .ok type) :
    sketch.Trades (loadComponent cls slot component) 0 1 := by
  have hload : sketch.Trades [Fragment.aload slot] 0 1 := Sketch.trades_one rfl rfl rfl rfl
  have hread : sketch.Trades
      [.field .getField ⟨cls, component.name, component.descriptor⟩] 1 1 :=
    Sketch.trades_one (Fragment.fieldTrade_of_parse 1 h) rfl rfl rfl
  exact hload.append hread

/-- A component is put on the stack as an object. -/
theorem trades_loadBoxed (slot : UInt16) (h : JavaType.parse component.descriptor = .ok type) :
    sketch.Trades (loadComponent cls slot component ++ Fragment.box type) 0 1 :=
  (trades_loadComponent slot h).append (Fragment.trades_box type)

/-! ### Comparing -/

/-- What is expected of the code that compares records: the other object stands on the stack before the
first block, and nothing before the others. -/
def comparing : Sketch :=
  ⟨true, fun label => if label = .numbered 0 then some [true] else some [], []⟩

/-- Nothing is expected on the stack before a block that is not the first one. -/
theorem outlines_comparing {n : Nat} (hpos : 0 < n) (hsmall : n < 65536) :
    comparing.outlines (.numbered n) = some [] := by
  have hne : Label.numbered n ≠ .numbered 0 := by
    intro heq
    have hzero := Label.numbered_inj hsmall (by omega) heq
    omega
  exact if_neg hne

/-- **A comparison goes to the next block**, or ends the execution. -/
theorem leads_comparison {n : Nat} (hpos : 0 < n) (hsmall : n < 65536)
    (h : JavaType.parse component.descriptor = .ok type) :
    comparing.Leads (comparison cls n component type) [] none [.numbered n] := by
  have hparse : MethodType.parse "(Ljava/lang/Object;Ljava/lang/Object;)Z" =
      .ok ⟨[.object ClassName.javaObject, .object ClassName.javaObject], some .boolean⟩ := by cbv
  have hcompare : comparing.Trades [.invokestatic
      ⟨"java/util/Objects", "equals", "(Ljava/lang/Object;Ljava/lang/Object;)Z"⟩ false] 2 1 :=
    Fragment.trades_invokestatic hparse false
  have hzero : comparing.Trades [.op .iconst0] 0 1 := Sketch.trades_one rfl rfl rfl rfl
  have hload (slot : UInt16) :
      comparing.Trades (loadComponent cls slot component ++ Fragment.box type) 0 1 :=
    trades_loadBoxed slot h
  have hends : comparing.Leads ([.op .iconst0] ++ [.op .ireturn]) [] none [] :=
    hzero.ends rfl rfl []
  have hbranch : comparing.Leads (loadComponent cls 0 component ++ Fragment.box type ++
      (loadComponent cls 2 component ++ Fragment.box type) ++
        [.invokestatic
          ⟨"java/util/Objects", "equals", "(Ljava/lang/Object;Ljava/lang/Object;)Z"⟩ false] ++
        [.branch .ne (.numbered n)]) [] (some []) [.numbered n] :=
    (((hload 0).puts (hload 2)).append hcompare).branch rfl (outlines_comparing hpos hsmall)
  have hall := hbranch.append hends
  rw [comparison]
  simp only [List.append_assoc] at hall ⊢
  exact hall

/-- The blocks that compare components are chained. -/
theorem chained_comparisonBlocks {types : List JavaType} {front : List Instruction} {n : Nat}
    {before : Outline} (htypes : Types components types)
    (hbefore : comparing.outlines (.numbered n) = some before)
    (hfront : comparing.Leads front before (some []) []) (hsmall : n + components.length < 65536) :
    comparing.Chained n (comparisonBlocks cls front (n + 1) components types) := by
  induction htypes generalizing front n before with
  | nil =>
      have hone : comparing.Trades [.op .iconst1] 0 1 := Sketch.trades_one rfl rfl rfl rfl
      exact .last (by simp) hbefore (hfront.append (hone.ends rfl rfl []))
  | cons htype _ ih =>
      rw [List.length_cons] at hsmall
      have hnext := outlines_comparing (Nat.succ_pos n) (by omega)
      have hnil : comparing.Leads [] [] (some []) [] := fun _ _ => rfl
      exact .cons (by simp [comparison]) hbefore
        (hfront.append (leads_comparison (Nat.succ_pos n) (by omega) htype))
        (List.mem_singleton.mpr rfl) (ih hnext hnil (by omega))

/-- Components that are compared have types. -/
theorem types_of_compareComponents {n : Nat} {pieces : List Piece}
    (h : compareComponents cls n components = .ok pieces) : ∃ types, Types components types := by
  induction components generalizing n pieces with
  | nil => exact ⟨[], .nil⟩
  | cons component components ih =>
      simp only [compareComponents, compareComponent, bind_eq_ok, pure_eq_ok] at h
      obtain ⟨first, ⟨type, htype, -⟩, others, hothers, -⟩ := h
      obtain ⟨types, htypes⟩ := ih hothers
      exact ⟨type :: types, .cons htype htypes⟩

/-- The test before the comparisons goes to the first block with the other object on the stack, or ends
the execution. -/
theorem leads_testInstance (cls : ClassName) :
    comparing.Leads (testInstance cls) [] none [.numbered 0] := by
  have hloaded : (Fragment.aload 1).trade? comparing.narrow = some (0, [true]) := rfl
  have htested : (Instruction.instanceof cls).trade? comparing.narrow = some (1, [true]) := rfl
  have hload : comparing.Leads [Fragment.aload 1] [] (some [true]) [] :=
    Sketch.leads_plain hloaded (Nat.zero_le _) rfl rfl rfl
  have hdup : comparing.Leads [.op .dup] [true] (some [true, true]) [] :=
    Sketch.leads_one rfl (List.forall_mem_nil _)
  have htest : comparing.Leads [.instanceof cls] [true, true] (some [true, true]) [] :=
    Sketch.leads_plain htested (Nat.le_succ 1) rfl rfl rfl
  have hzero : comparing.Trades [.op .iconst0] 0 1 := Sketch.trades_one rfl rfl rfl rfl
  have hbranch : comparing.Leads ([Fragment.aload 1] ++ [.op .dup] ++ [.instanceof cls] ++
      [.branch .ne (.numbered 0)]) [] (some [true]) [.numbered 0] :=
    ((hload.append hdup).append htest).branch rfl (Nat.le_succ 1) rfl rfl
  exact hbranch.append (hzero.ends rfl rfl [true])

/-- The other object is stored as one of the class. -/
theorem leads_storeOther (cls : ClassName) :
    comparing.Leads [.checkcast cls, Fragment.astore 2] [true] (some []) [] := by
  have hcasted : (Instruction.checkcast cls).trade? comparing.narrow = some (1, [true]) := rfl
  have hcast : comparing.Leads [.checkcast cls] [true] (some [true]) [] :=
    Sketch.leads_plain hcasted le_rfl rfl rfl rfl
  have hstore : comparing.Leads [Fragment.astore 2] [true] (some []) [] :=
    Sketch.leads_one rfl (List.forall_mem_nil _)
  exact hcast.append hstore

/-- **The code that compares records is balanced.** -/
theorem balanced_equalsBody {pieces : List Piece} (h : equalsBody cls components = .ok pieces)
    (hresolves : (Code.ofPieces pieces).Resolves) (hcount : components.length < 65536) :
    (Code.ofPieces pieces).Balanced comparing := by
  obtain ⟨comparisons, hcomparisons, -⟩ := bind_eq_ok.mp h
  obtain ⟨types, htypes⟩ := types_of_compareComponents hcomparisons
  obtain ⟨pieces', hpieces', hcode⟩ := equalsBody_eq cls htypes
  obtain rfl := Except.ok.inj (h.symm.trans hpieces')
  exact Code.balanced_of_chained hresolves hcode rfl (leads_testInstance cls)
    (List.mem_singleton.mpr rfl)
    (chained_comparisonBlocks htypes rfl (leads_storeOther cls) (by omega))

/-! ### Hashing and showing -/

/-- The hash of a component is added to the number on the stack. -/
theorem trades_hashComponent (h : hashComponent cls component = .ok instructions) :
    sketch.Trades instructions 1 1 := by
  simp only [hashComponent, bind_eq_ok, pure_eq_ok] at h
  obtain ⟨type, htype, rfl⟩ := h
  have hparse : MethodType.parse "(Ljava/lang/Object;)I" =
      .ok ⟨[.object ClassName.javaObject], some .int⟩ := by cbv
  have hhash : sketch.Trades [.invokestatic
      ⟨"java/util/Objects", "hashCode", "(Ljava/lang/Object;)I"⟩ false] 1 1 :=
    Fragment.trades_invokestatic hparse false
  have hadd : sketch.Trades [.op .iadd] 2 1 := Sketch.trades_one rfl rfl rfl rfl
  have hload : sketch.Trades (loadComponent cls 0 component ++ Fragment.box type) 0 1 :=
    trades_loadBoxed 0 htype
  have hall := (hload.below 1).append ((hhash.below 1).append hadd)
  exact hall

/-- The hashes of components are added to the number on the stack. -/
theorem trades_hashRest (h : hashRest cls components = .ok instructions) :
    sketch.Trades instructions 1 1 := by
  induction components generalizing instructions with
  | nil =>
      cases h
      exact .nil 1
  | cons component components ih =>
      simp only [hashRest, bind_eq_ok, pure_eq_ok] at h
      obtain ⟨first, hfirst, others, hothers, rfl⟩ := h
      have hfactor : sketch.Trades [Fragment.int 31] 0 1 := Fragment.trades_int 31
      have hmultiply : sketch.Trades [.op .imul] 2 1 := Sketch.trades_one rfl rfl rfl rfl
      have hproduct := (hfactor.below 1).append hmultiply
      exact (hproduct.append (trades_hashComponent hfirst)).append (ih hothers)

/-- **The code that hashes a record is balanced.** -/
theorem balanced_hashCodeBody {pieces : List Piece} (h : hashCodeBody cls components = .ok pieces)
    (hresolves : (Code.ofPieces pieces).Resolves) : (Code.ofPieces pieces).Balanced .straight := by
  have hzero : Sketch.straight.Trades [.op .iconst0] 0 1 := Sketch.trades_one rfl rfl rfl rfl
  cases components with
  | nil =>
      cases h
      exact Code.balanced_of_leads hresolves rfl (hzero.ends rfl rfl [])
  | cons component components =>
      simp only [hashCodeBody, bind_eq_ok, pure_eq_ok] at h
      obtain ⟨first, hfirst, others, hothers, rfl⟩ := h
      have hall := (hzero.append (trades_hashComponent hfirst)).append (trades_hashRest hothers)
      exact Code.balanced_of_leads hresolves rfl (hall.ends rfl rfl [])

/-- Components are appended to the string builder on the stack. -/
theorem trades_appendComponents {separator : String}
    (h : appendComponents cls separator components = .ok instructions) :
    sketch.Trades instructions 1 1 := by
  induction components generalizing separator instructions with
  | nil =>
      cases h
      exact .nil 1
  | cons component components ih =>
      simp only [appendComponents, bind_eq_ok, pure_eq_ok] at h
      obtain ⟨type, htype, others, hothers, rfl⟩ := h
      have hload : sketch.Trades (loadComponent cls 0 component) 0 1 := trades_loadComponent 0 htype
      have hvalue := (hload.below 1).append (Fragment.trades_append type)
      have hall := (Fragment.trades_appendString (JavaString.ofString
        (separator ++ component.name ++ "="))).append (hvalue.append (ih hothers))
      simpa [Fragment.appendText] using hall

/-- **The code that shows a record is balanced.** -/
theorem balanced_toStringBody {pieces : List Piece} (h : toStringBody cls components = .ok pieces)
    (hresolves : (Code.ofPieces pieces).Resolves) : (Code.ofPieces pieces).Balanced .straight := by
  simp only [toStringBody, bind_eq_ok, pure_eq_ok] at h
  obtain ⟨appended, happended, rfl⟩ := h
  have hparse : MethodType.parse "()Ljava/lang/String;" =
      .ok ⟨[], some (.object ClassName.javaString)⟩ := by cbv
  have hcls : Sketch.straight.Trades [.ldc (.cls cls)] 0 1 := Sketch.trades_one rfl rfl rfl rfl
  have hname : Sketch.straight.Trades
      [.invokevirtual ⟨ClassName.javaClass, "getSimpleName", "()Ljava/lang/String;"⟩] 1 1 :=
    Fragment.trades_invokevirtual hparse
  have happend : Sketch.straight.Trades [Fragment.append (.object ClassName.javaString)] 2 1 :=
    Fragment.trades_append _
  have hstart := (Fragment.trades_construct ClassName.stringBuilder).append
    (((hcls.append hname).below 1).append happend)
  have hall := (hstart.append (trades_appendComponents happended)).append
    (Fragment.trades_appendString (JavaString.ofString (if components.isEmpty then "[]" else "]")))
  exact Code.balanced_of_leads hresolves rfl (Concat.leads_returnBuilt hall)

end Record

/-! ## Accessors -/

namespace Constants

/-- What is expected of an accessor: the exception stands on the stack before its handler, and nothing
before other instructions with a label. -/
def guarded : Sketch :=
  ⟨false, fun label => if label = ⟨4⟩ then some [true] else some [], [⟨⟨2⟩, ⟨3⟩, ⟨4⟩, none⟩]⟩

section Accessor

variable (cls : ClassName) (name : String) (constant : Dynamic) (type : JavaType)
  (compute : List Instruction)

/-- What an accessor starts with: unless the value is there, it takes the lock. -/
def locking : List Instruction :=
  [.field .getStatic (flagField cls name), .branch .ne ⟨0⟩] ++
    [.field .getStatic (lockField cls name), .op .dup, Fragment.astore 0, .op .monitorenter]

/-- What an accessor does with the lock: unless the value is there now, it computes it. -/
def computing : List Instruction :=
  [.field .getStatic (flagField cls name), .branch .ne ⟨1⟩] ++
    (compute ++ [.field .putStatic (valueField cls name constant)] ++
      [.op .iconst1, .field .putStatic (flagField cls name)])

/-- The accessor gives the lock back. -/
def unlocking : List Instruction :=
  [Fragment.aload 0, .op .monitorexit]

/-- The accessor gives the lock back where something was thrown, and throws an error. -/
def handling : List Instruction :=
  [Fragment.astore 1] ++ unlocking ++ ([.new bootstrapError, .op .dup] ++ [Fragment.aload 1] ++
    [.invokespecial ⟨bootstrapError, MethodName.constructor, "(Ljava/lang/Throwable;)V"⟩ false] ++
      [.op .athrow])

/-- The accessor returns the value. -/
def returning : List Instruction :=
  [.field .getStatic (valueField cls name constant)] ++ [Fragment.returnValue type]

/-- **The accessor is made up of these parts.** -/
theorem accessorListing_parts :
    (accessorListing cls name constant type compute).instructions =
      (locking cls name).map Instruction.plain ++
        (Labelled.carrying ⟨2⟩ (computing cls name constant compute) ++
          (Labelled.carrying ⟨1⟩ unlocking ++ (Labelled.carrying ⟨3⟩ [.goto ⟨0⟩] ++
            (Labelled.carrying ⟨4⟩ handling ++
              Labelled.carrying ⟨0⟩ (returning cls name constant type))))) := by
  simp [accessorListing, accessorFront, accessorBack, locking, computing, unlocking, handling,
    returning, Labelled.carrying, Instruction.plain]

variable {cls name constant type compute}

/-- The flag of a constant is put on the stack. -/
theorem trades_flag : guarded.Trades [.field .getStatic (flagField cls name)] 0 1 := by
  have hparse : JavaType.parse "Z" = .ok .boolean := rfl
  exact Fragment.trades_getStatic hparse

/-- Execution goes on with the lock in a local variable, and nothing on the stack. -/
theorem leads_locking : guarded.Leads (locking cls name) [] (some []) [⟨0⟩] := by
  have hlooks : guarded.Leads [.field .getStatic (flagField cls name), .branch .ne ⟨0⟩] [] (some [])
      [⟨0⟩] :=
    trades_flag.branch rfl rfl
  have hparse : JavaType.parse lockDescriptor = .ok (.object ClassName.javaObject) :=
    rfl
  have hfield : fieldTrade? 0 lockDescriptor = some (0, [true]) :=
    Fragment.fieldTrade_of_parse 0 hparse
  have hlock : guarded.Leads [.field .getStatic (lockField cls name)] [] (some [true]) [] :=
    Sketch.leads_plain hfield (Nat.zero_le _) rfl rfl rfl
  have hdup : guarded.Leads [.op .dup] [true] (some [true, true]) [] :=
    Sketch.leads_one rfl (List.forall_mem_nil _)
  have hstore : guarded.Leads [Fragment.astore 0] [true, true] (some [true]) [] :=
    Sketch.leads_one rfl (List.forall_mem_nil _)
  have henter : guarded.Leads [.op .monitorenter] [true] (some []) [] :=
    Sketch.leads_one rfl (List.forall_mem_nil _)
  exact hlooks.append (((hlock.append hdup).append hstore).append henter)

/-- Execution goes on with nothing on the stack where the value was computed. -/
theorem leads_computing (hcompute : guarded.Trades compute 0 1) :
    guarded.Leads (computing cls name constant compute) [] (some []) [⟨1⟩] := by
  have hlooks : guarded.Leads [.field .getStatic (flagField cls name), .branch .ne ⟨1⟩] [] (some [])
      [⟨1⟩] :=
    trades_flag.branch rfl rfl
  have hput : guarded.Trades [.field .putStatic (valueField cls name constant)] 1 0 :=
    Sketch.trades_one rfl rfl rfl rfl
  have hset : guarded.Trades [.op .iconst1, .field .putStatic (flagField cls name)] 0 0 := by
    have hone : guarded.Trades [.op .iconst1] 0 1 := Sketch.trades_one rfl rfl rfl rfl
    have hflag : guarded.Trades [.field .putStatic (flagField cls name)] 1 0 :=
      Sketch.trades_one rfl rfl rfl rfl
    exact hone.append hflag
  obtain ⟨left, hleft, hleads⟩ := ((hcompute.append hput).append hset).leads []
  obtain rfl := List.length_eq_zero_iff.mp hleft
  exact hlooks.append hleads

/-- The lock is given back. -/
theorem leads_unlocking : guarded.Leads unlocking [] (some []) [] := by
  have hload : guarded.Trades [Fragment.aload 0] 0 1 := Sketch.trades_one rfl rfl rfl rfl
  have hexit : guarded.Trades [.op .monitorexit] 1 0 := Sketch.trades_one rfl rfl rfl rfl
  obtain ⟨left, hleft, hleads⟩ := (hload.append hexit).leads []
  obtain rfl := List.length_eq_zero_iff.mp hleft
  exact hleads

/-- The handler ends the execution. -/
theorem leads_handling : guarded.Leads handling [true] none [] := by
  have hparse : MethodType.parse "(Ljava/lang/Throwable;)V" =
      .ok ⟨[.object "java/lang/Throwable"], none⟩ := by cbv
  have hstore : guarded.Leads [Fragment.astore 1] [true] (some []) [] :=
    Sketch.leads_one rfl (List.forall_mem_nil _)
  have hload : guarded.Trades [Fragment.aload 1] 0 1 := Sketch.trades_one rfl rfl rfl rfl
  have herror : guarded.Trades ([.new bootstrapError, .op .dup] ++ [Fragment.aload 1] ++
      [.invokespecial ⟨bootstrapError, MethodName.constructor, "(Ljava/lang/Throwable;)V"⟩ false])
      0 1 :=
    Fragment.trades_constructor hparse hload
  exact (hstore.append leads_unlocking).append (herror.ends rfl rfl [])

/-- The value is returned. -/
theorem leads_returning (htype : JavaType.parse constant.descriptor = .ok type) :
    guarded.Leads (returning cls name constant type) [] none [] := by
  have hvalue : guarded.Trades [.field .getStatic (valueField cls name constant)] 0 1 :=
    Fragment.trades_getStatic htype
  unfold returning Fragment.returnValue
  cases type.kind <;> exact hvalue.ends rfl rfl []

/-- **An accessor is balanced** if the call in it leaves one value. -/
theorem balanced_accessorListing (htype : JavaType.parse constant.descriptor = .ok type)
    (hcompute : guarded.Trades compute 0 1)
    (hresolves : (accessorListing cls name constant type compute).Resolves) :
    (accessorListing cls name constant type compute).Balanced guarded where
  resolves := hresolves
  closed := rfl
  ranges := rfl
  forward range hrange start stop hstart hstop := by
    obtain rfl := List.mem_singleton.mp hrange
    have hfrom : (accessorListing cls name constant type compute).labelIndices[(⟨2⟩ : Label)]? =
        some 6 :=
      hresolves.place_eq rfl (fetch_front (by omega)) rfl
    have hto : (accessorListing cls name constant type compute).labelIndices[(⟨3⟩ : Label)]? =
        some (8 + compute.length + 5) :=
      hresolves.place_eq rfl (fetch_back 5) rfl
    obtain rfl := Option.some.inj (hfrom.symm.trans hstart)
    obtain rfl := Option.some.inj (hto.symm.trans hstop)
    omega
  handlers range hrange := by
    obtain rfl := List.mem_singleton.mp hrange
    rfl
  walks := by
    have hleaving : guarded.Leads [.goto ⟨0⟩] [] none [⟨0⟩] :=
      Sketch.leads_one rfl fun target hmem => by rw [List.mem_singleton.mp hmem]; rfl
    rw [accessorListing_parts, ← List.append_nil (Labelled.carrying ⟨0⟩ _)]
    apply Exists.intro
    refine (leads_locking _ _).trans ?_
    refine ((leads_computing hcompute).walk_carrying (by simp [computing]) rfl _).trans ?_
    refine (leads_unlocking.walk_carrying (by simp [unlocking]) rfl _).trans ?_
    refine (hleaving.walk_carrying (by simp) rfl _).trans ?_
    refine (leads_handling.walk_carrying (by simp [handling]) ?_ _).trans ?_
    · simp [Sketch.before?, guarded, Sketch.handlersAt]
    refine ((leads_returning htype).walk_carrying (by simp [returning]) ?_ _).trans ?_
    · simp [Sketch.before?, guarded]
    rfl

end Accessor

/-- **The code of an accessor is balanced.** -/
theorem balanced_accessorCode {cls : ClassFile} {name : String} {constant : Dynamic}
    {found found' : Found} {code : Code} (hvoid : constant.bootstrap.ConstructsVoid)
    (h : accessorCode cls name constant found = .ok (code, found')) (hresolves : code.Resolves) :
    code.Balanced guarded := by
  simp only [accessorCode, work_bind_eq_ok, work_lift_eq_ok, work_pure_eq_ok] at h
  obtain ⟨type, _, ⟨htype, rfl⟩, compute, t, hcompute, rfl, rfl⟩ := h
  rw [ofPieces_accessor] at hresolves ⊢
  exact balanced_accessorListing htype (trades_callBootstrap hvoid hcompute) hresolves

end Constants

end Downlevel
