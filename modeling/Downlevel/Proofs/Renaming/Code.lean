import Downlevel.Proofs.Emitting
import Downlevel.Proofs.Renaming.Layout
import Downlevel.Proofs.RoundTrip.Code

/-!
# Writing code with other labels

Code that was written without any error is written with the same bytes if its labels are others, one
for each.  The sizes that stand in the code are used only if no frames can be computed, and an empty
table of local variables is left out; so code that is read again from what was written gives the
same bytes once more.

* `Follows` — work that does what other work does wherever that succeeds;
* `codeBody_again`, `code_again` — code with other labels is written as before.
-/

namespace Downlevel

namespace Encode

open Pool PoolM

section Following

variable {α β : Type}

/-- Wherever the first work succeeds, the second does the same. -/
def Follows (work work' : PoolM α) : Prop :=
  ∀ pool result, work pool = .ok result → work' pool = .ok result

/-- Work follows itself. -/
theorem Follows.refl (work : PoolM α) : Follows work work :=
  fun _ _ h => h

/-- Work in sequence follows if its parts do. -/
theorem Follows.bind {work work' : PoolM α} {next next' : α → PoolM β} (h : Follows work work')
    (hnext : ∀ value, Follows (next value) (next' value)) :
    Follows (work >>= next) (work' >>= next') := by
  rintro pool ⟨result, pool'⟩ hrun
  obtain ⟨value, between, hfirst, hrest⟩ := work_bind_eq_ok.mp hrun
  exact work_bind_eq_ok.mpr ⟨value, between, h _ _ hfirst, hnext _ _ _ hrest⟩

/-- What only has an outcome follows if that is the same value. -/
theorem follows_lift {outcome outcome' : Except Error α}
    (h : ∀ value, outcome = .ok value → outcome' = .ok value) :
    Follows (liftM outcome) (liftM outcome') := by
  rintro pool ⟨value, pool'⟩ hrun
  obtain ⟨houtcome, rfl⟩ := work_lift_eq_ok.mp hrun
  exact work_lift_eq_ok.mpr ⟨h value houtcome, rfl⟩

/-- Refused work is followed by anything. -/
theorem follows_refuse (fault : WriteFault) (work : PoolM α) : Follows (refuse fault) work := by
  intro pool result h
  cases h

/-- Going through a list follows if the work for each item does. -/
theorem follows_mapM {γ : Type} {items : List α} {g : α → γ} {work : α → PoolM β}
    {work' : γ → PoolM β} (h : ∀ item ∈ items, Follows (work item) (work' (g item))) :
    Follows (items.mapM work) ((items.map g).mapM work') := by
  induction items with
  | nil => exact .refl _
  | cons item items ih =>
      obtain ⟨hfirst, hothers⟩ := List.forall_mem_cons.mp h
      rw [List.map_cons, List.mapM_cons, List.mapM_cons]
      exact hfirst.bind fun _ => (ih hothers).bind fun _ => .refl _

/-- Writing a list follows if writing each item does. -/
theorem follows_listOf {γ : Type} (what : String) {items : List α} {g : α → γ}
    {item : α → PoolM Bytes} {item' : γ → PoolM Bytes}
    (h : ∀ value ∈ items, Follows (item value) (item' (g value))) :
    Follows (listOf what items item) (listOf what (items.map g) item') := by
  unfold listOf each
  rw [List.length_map]
  exact (Follows.refl _).bind fun _ => ((follows_mapM h).bind fun _ => .refl _).bind fun _ => .refl _

/-- An attribute follows if its contents do. -/
theorem follows_sized (name : String) {contents contents' : PoolM Bytes}
    (h : Follows contents contents') : Follows (sized name contents) (sized name contents') :=
  h.bind fun _ => .refl _

/-- Attributes that are there or not follow one by one. -/
def FollowsAll : Attributes → Attributes → Prop :=
  List.Forall₂ (Option.Rel Follows)

/-- Writing attributes follows if the attributes do. -/
theorem follows_present {attributes' attributes'' : Attributes}
    (h : FollowsAll attributes' attributes'') :
    Follows (present attributes') (present attributes'') := by
  induction h with
  | nil => exact .refl _
  | @cons one one' rest rest' hfirst _ ih =>
      cases hfirst with
      | none => exact ih
      | @some work work' hwork =>
          show Follows ((work :: rest.filterMap id).mapM id) ((work' :: rest'.filterMap id).mapM id)
          rw [List.mapM_cons, List.mapM_cons]
          exact Follows.bind hwork fun _ => Follows.bind ih fun _ => .refl _

end Following

section Items

open Layout

variable {f : Label → Label} {labels : List Label}

/-- Renaming labels keeps keys in order. -/
theorem isSorted_map : ∀ cases : List (Int32 × Label),
    isSorted (cases.map fun c => (c.1, f c.2)) = isSorted cases
  | [] => rfl
  | [_] => rfl
  | a :: b :: rest => by
      have hrest := isSorted_map (b :: rest)
      rw [List.map_cons] at hrest
      rw [List.map_cons, List.map_cons, isSorted, isSorted, hrest]

/-- An item that stands for an instruction jumps where the instruction does. -/
theorem Stands.targets {constants : Constants} {instruction : Instruction} {next : CodeItem}
    (h : Stands constants instruction next) :
    ∀ target ∈ next.targets, target ∈ instruction.targets := by
  cases next with
  | plain bytes => nofun
  | branch condition target => rw [show instruction = _ from h]; exact fun _ => id
  | jump opcode wideOpcode target =>
      obtain ⟨-, -, rfl⟩ | ⟨-, -, rfl⟩ := h
      · exact fun _ => id
      · exact fun _ => id
  | table fallback low high targets => rw [h.1]; exact fun _ => id
  | lookup fallback cases => rw [show instruction = _ from h]; exact fun _ => id

/-- An instruction with other labels is written as its item with other labels. -/
theorem item_mapLabels {constants : Constants} {instruction : Instruction} {next : CodeItem}
    (hstands : Stands constants instruction next) {pool pool' : Builder}
    (hrun : item instruction pool = .ok (next, pool')) (f : Label → Label) :
    item (instruction.mapLabels f) pool = .ok (next.mapLabels f, pool') := by
  cases next with
  | plain bytes => rw [hstands.1 f, hrun]; rfl
  | branch condition target =>
      obtain rfl : instruction = _ := hstands
      cases hrun
      rfl
  | jump opcode wideOpcode target =>
      obtain ⟨-, -, rfl⟩ | ⟨-, -, rfl⟩ := hstands
      · cases hrun
        rfl
      · cases hrun
        rfl
  | table fallback low high targets =>
      obtain ⟨rfl, hbounds, hlength⟩ := hstands
      simp only [item, Instruction.mapLabels, if_neg hbounds, List.length_map, if_pos hlength,
        work_pure_eq_ok] at hrun ⊢
      exact ⟨rfl, hrun.2⟩
  | lookup fallback cases =>
      obtain rfl : instruction = _ := hstands
      simp only [item, Instruction.mapLabels, isSorted_map] at hrun ⊢
      split at hrun
      case isFalse => cases hrun
      case isTrue hsorted =>
        rw [if_pos hsorted]
        cases hrun
        rfl

/-- Some labels are the only ones that an instruction has or jumps to. -/
def Only (labels : List Label) (entry : Labelled) : Prop :=
  (∀ label, entry.label = some label → label ∈ labels) ∧
    ∀ target ∈ entry.instruction.targets, target ∈ labels

/-- Instructions with other labels are written as their items with other labels, behind others. -/
theorem itemsFrom_renamed (hf : Set.InjOn f {label | label ∈ labels}) {entries : List Labelled}
    (hkept : ∀ entry ∈ entries, KeptInstruction entry.instruction)
    (honly : ∀ entry ∈ entries, Only labels entry) {placement placement' : Placement}
    (halike : placement.Alike f labels placement') {done found : List (Option Label × CodeItem)}
    (hdone : ∀ item ∈ done, Uses labels item) {pool pool' : Builder} (hsound : pool.Sound)
    (hrun : itemsFrom placement done entries pool = .ok (found, pool')) :
    itemsFrom placement' (done.map (renameItem f)) (entries.map (Labelled.mapLabels f)) pool =
        .ok (found.map (renameItem f), pool') ∧ ∀ item ∈ found, Uses labels item := by
  induction entries generalizing placement placement' done pool with
  | nil =>
      obtain ⟨rfl, rfl⟩ := work_pure_eq_ok.mp hrun
      refine ⟨work_pure_eq_ok.mpr ⟨by rw [List.map_reverse], rfl⟩, ?_⟩
      exact fun item hitem => hdone item (List.mem_reverse.mp hitem)
  | cons entry entries ih =>
      obtain ⟨hkeptFirst, hkeptRest⟩ := List.forall_mem_cons.mp hkept
      obtain ⟨honlyFirst, honlyRest⟩ := List.forall_mem_cons.mp honly
      obtain ⟨_, _, hcheck, hrun⟩ := work_bind_eq_ok.mp hrun
      obtain ⟨hsmall, rfl⟩ := work_lift_eq_ok.mp hcheck
      obtain ⟨next, between, hitem, hrun⟩ := work_bind_eq_ok.mp hrun
      have hitem : item entry.instruction pool = .ok (next, between) := within_eq_ok.mp hitem
      obtain ⟨hsound', hcovers⟩ := hkeptFirst _ _ _ hitem hsound
      obtain ⟨bootstraps, -, hall⟩ := hsound'.exists_covers hsound'.covers
      have hstands := (hcovers _ hall).2
      have huses : Uses labels (entry.label, next) :=
        ⟨honlyFirst.1, fun target htarget => honlyFirst.2 target (hstands.targets target htarget)⟩
      obtain ⟨hrest, hfound⟩ := ih hkeptRest honlyRest (halike.add hf huses false)
        (List.forall_mem_cons.mpr ⟨huses, hdone⟩) hsound' hrun
      refine ⟨?_, hfound⟩
      rw [List.map_cons]
      refine work_bind_eq_ok.mpr ⟨(), pool, work_lift_eq_ok.mpr ⟨?_, rfl⟩, ?_⟩
      · rw [Placement.check_eq_ok, halike.size]
        exact Placement.check_eq_ok.mp hsmall
      · exact work_bind_eq_ok.mpr ⟨next.mapLabels f, between,
          within_eq_ok.mpr (item_mapLabels hstands hitem f), hrest⟩

/-- Instructions with other labels are written as their items with other labels. -/
theorem items_renamed (hf : Set.InjOn f {label | label ∈ labels}) {entries : List Labelled}
    (hkept : ∀ entry ∈ entries, KeptInstruction entry.instruction)
    (honly : ∀ entry ∈ entries, Only labels entry) {found : List (Option Label × CodeItem)}
    {pool pool' : Builder} (hsound : pool.Sound)
    (hrun : items entries pool = .ok (found, pool')) :
    items (entries.map (Labelled.mapLabels f)) pool = .ok (found.map (renameItem f), pool') ∧
      ∀ item ∈ found, Uses labels item :=
  itemsFrom_renamed hf hkept honly
    ⟨rfl, rfl, renamed_empty, rfl, fun _ hparts => by cases hparts⟩ (fun _ hmem => by cases hmem)
    hsound hrun

/-- All labels of tidy code are labels of the code. -/
theorem only_of_tidy {code : Code} (hcode : code.Tidy) :
    ∀ entry ∈ code.instructions, Only code.labels entry := by
  intro entry hentry
  refine ⟨fun label hlabel => ?_, fun target htarget => ?_⟩
  · exact List.mem_append_left _ (List.mem_filterMap.mpr ⟨entry, hentry, hlabel⟩)
  · exact hcode.resolves.of_target hentry htarget

end Items

section Tables

variable {f : Label → Label} {code : Code} {layout layout' : Layout}
  {frames : Option (Array (Option Frame))} {maxStack maxLocals : UInt16}

/-- Code with other labels that is laid out alike. -/
structure Again (f : Label → Label) (code : Code) (layout layout' : Layout) : Prop where
  injective : Set.InjOn f {label | label ∈ code.labels}
  tidy : code.Tidy
  layout : layout.SameBut f code.labels layout'

/-- What is needed to write the tables of code with other labels. -/
abbrev againContext (f : Label → Label) (maxStack maxLocals : UInt16) (code : Code)
    (layout' : Layout) (frames : Option (Array (Option Frame))) : Context :=
  ⟨reread f maxStack maxLocals code, layout', frames⟩

variable (h : Again f code layout layout')

/-- The same instructions are executed. -/
theorem reachable_again (layout : Layout) :
    (againContext f maxStack maxLocals code layout' frames).reachable =
      (Context.mk code layout frames).reachable := by
  cases frames with
  | some found => rfl
  | none =>
      simp only [Context.reachable, reread, Code.mapLabels, List.map_map]
      rfl

include h

/-- Instructions start where they started. -/
theorem Again.offsetOf (index : Nat) : layout'.offsetOf index = layout.offsetOf index := by
  unfold Layout.offsetOf
  rw [h.layout.offsets, h.layout.size]

/-- The same runs of instructions are never executed. -/
theorem Again.deadOffsets : (againContext f maxStack maxLocals code layout' frames).deadOffsets =
    (Context.mk code layout frames).deadOffsets := by
  simp only [Context.deadOffsets, Context.dead, reachable_again layout, h.offsetOf]

/-- The bytes are the same. -/
theorem Again.bytes : (againContext f maxStack maxLocals code layout' frames).bytes =
    (Context.mk code layout frames).bytes := by
  simp only [Context.bytes, reachable_again layout, h.layout.chunks]

/-- A label that is renamed is at the offset where it was. -/
theorem Again.offsetOfLabel {label : Label} (hlabel : label ∈ code.labels) {offset : UInt16}
    (hoffset : layout.offsetOfLabel label = .ok offset) :
    layout'.offsetOfLabel (f label) = .ok offset := by
  obtain ⟨place, hplace, hrest⟩ := bind_eq_ok.mp hoffset
  exact bind_eq_ok.mpr ⟨place, Layout.placeOf_renamed h.layout.renamed hlabel hplace, hrest⟩

/-- The same instructions need a frame because of one of them. -/
theorem Again.framesAfter {instruction : Instruction}
    (hinstruction : ∀ target ∈ instruction.targets, target ∈ code.labels) (length index : Nat) :
    Context.framesAfter (againContext f maxStack maxLocals code layout' frames)
        (code.mapLabels f).labelIndices length index (instruction.mapLabels f) =
      Context.framesAfter ⟨code, layout, frames⟩ code.labelIndices length index instruction := by
  unfold Context.framesAfter
  rw [Instruction.targets_mapLabels, Frame.mapM_placeOf fun target htarget =>
      Frame.placeOf_renamed h.injective (hinstruction target htarget),
    Frame.isUnconditional_mapLabels, h.layout.wide]
  cases instruction <;> rfl

/-- The same instructions need a frame because of others. -/
theorem Again.framesFrom {entries : List (Bool × Labelled)}
    (hentries : ∀ entry ∈ entries, ∀ target ∈ entry.2.instruction.targets, target ∈ code.labels)
    (length index : Nat) (done : List Nat) :
    Context.framesFrom (againContext f maxStack maxLocals code layout' frames)
        (code.mapLabels f).labelIndices length index done
        (entries.map fun entry => (entry.1, entry.2.mapLabels f)) =
      Context.framesFrom ⟨code, layout, frames⟩ code.labelIndices length index done entries := by
  induction entries generalizing index done with
  | nil => rfl
  | cons entry entries ih =>
      obtain ⟨hfirst, hothers⟩ := List.forall_mem_cons.mp hentries
      obtain ⟨isLive, entry⟩ := entry
      cases isLive with
      | false => exact ih hothers (index + 1) done
      | true =>
          simp only [List.map_cons, Context.framesFrom, Labelled.mapLabels,
            h.framesAfter hfirst]
          exact bind_congr fun needed => ih hothers (index + 1) (needed ++ done)

/-- The same handlers are found. -/
theorem Again.handlers : ((code.mapLabels f).exceptions.mapM fun range =>
      Frame.placeOf (code.mapLabels f).labelIndices range.handler) =
    code.exceptions.mapM fun range => Frame.placeOf code.labelIndices range.handler := by
  have hplaces : ∀ handler ∈ code.exceptions.map ExceptionRange.handler,
      Frame.placeOf (code.mapLabels f).labelIndices (f handler) =
        Frame.placeOf code.labelIndices handler := by
    refine List.forall_mem_map.mpr fun range hrange => ?_
    exact Frame.placeOf_renamed h.injective (h.tidy.resolves.of_range hrange).2.2
  have hmap := Frame.mapM_placeOf hplaces
  rw [List.mapM_map, List.mapM_map, List.mapM_map] at hmap
  rw [Code.mapLabels, List.mapM_map]
  exact hmap

/-- The same instructions need a frame. -/
theorem Again.frameIndices : (againContext f maxStack maxLocals code layout' frames).frameIndices =
    (Context.mk code layout frames).frameIndices := by
  cases frames with
  | none => rfl
  | some found =>
      have hzip : (Context.mk code layout (some found)).reachable.zip
            (code.mapLabels f).instructions =
          ((Context.mk code layout (some found)).reachable.zip code.instructions).map fun entry =>
            (entry.1, entry.2.mapLabels f) := by
        rw [Code.mapLabels, List.zip_map_right]
        rfl
      have hlive : Context.framesFrom (againContext f maxStack maxLocals code layout' (some found))
            (reread f maxStack maxLocals code).labelIndices code.instructions.length 0 []
            ((againContext f maxStack maxLocals code layout' (some found)).reachable.zip
              (reread f maxStack maxLocals code).instructions) =
          Context.framesFrom ⟨code, layout, some found⟩ code.labelIndices code.instructions.length 0
            [] ((Context.mk code layout (some found)).reachable.zip code.instructions) := by
        refine (congrArg (Context.framesFrom _ _ _ 0 []) hzip).trans ?_
        exact h.framesFrom (fun entry hentry =>
          (only_of_tidy h.tidy entry.2 (List.of_mem_zip hentry).2).2) _ _ _
      have hhandlers : ((reread f maxStack maxLocals code).exceptions.mapM fun range =>
            Frame.placeOf (reread f maxStack maxLocals code).labelIndices range.handler) = _ :=
        h.handlers
      have hlength : (reread f maxStack maxLocals code).instructions.length =
          code.instructions.length := List.length_map _
      have hdead : (againContext f maxStack maxLocals code layout' (some found)).dead =
          (Context.mk code layout (some found)).dead := rfl
      simp only [Context.frameIndices, hlength, hdead, hlive, hhandlers]

/-- The ranges of an exception follow. -/
theorem Again.exceptionRanges {range : ExceptionRange} (hrange : range ∈ code.exceptions) :
    Follows (Context.exceptionRanges ⟨code, layout, frames⟩ range)
      (Context.exceptionRanges (againContext f maxStack maxLocals code layout' frames)
        (range.mapLabels f)) := by
  obtain ⟨hstart, hstop, hhandler⟩ := h.tidy.resolves.of_range hrange
  unfold Context.exceptionRanges
  refine (follows_lift fun _ => h.offsetOfLabel hstart).bind fun start => ?_
  refine (follows_lift fun _ => h.offsetOfLabel hstop).bind fun stop => ?_
  refine (follows_lift fun _ => h.offsetOfLabel hhandler).bind fun handler => ?_
  rw [h.deadOffsets]
  exact .refl _

/-- The table of exceptions follows. -/
theorem Again.exceptionTable : Follows (Context.exceptionTable ⟨code, layout, frames⟩)
    (Context.exceptionTable (againContext f maxStack maxLocals code layout' frames)) :=
  (follows_mapM fun _ hrange => h.exceptionRanges hrange).bind fun _ => .refl _

/-- The types in frames are the same. -/
theorem Again.vtype : Context.vtype (againContext f maxStack maxLocals code layout' frames) =
    Context.vtype ⟨code, layout, frames⟩ := by
  funext type
  cases type with
  | uninitialized index => simp only [Context.vtype, h.offsetOf]
  | _ => rfl

/-- The frames at some instructions are the same. -/
theorem Again.fullFrames (found : Array (Option Frame)) (previous : Option Nat) (done : List Bytes)
    (indices : List Nat) :
    Context.fullFrames (againContext f maxStack maxLocals code layout' frames) found previous done
        indices =
      Context.fullFrames ⟨code, layout, frames⟩ found previous done indices := by
  induction indices generalizing previous done with
  | nil => rfl
  | cons index rest ih =>
      simp only [Context.fullFrames, Context.fullFrame, h.vtype, h.offsetOf, ih]

/-- The attribute with the frames is the same. -/
theorem Again.stackMapTable? (indices : List Nat) :
    Context.stackMapTable? (againContext f maxStack maxLocals code layout' frames) indices =
      Context.stackMapTable? ⟨code, layout, frames⟩ indices := by
  cases frames with
  | none => rfl
  | some found => simp only [Context.stackMapTable?, h.fullFrames]

/-- The attribute with the line numbers follows. -/
theorem Again.lineNumberTable {lines : List (Label × UInt16)}
    (hlines : ∀ line ∈ lines, line.1 ∈ code.labels) :
    Follows (Context.lineNumberTable ⟨code, layout, frames⟩ lines)
      (Context.lineNumberTable (againContext f maxStack maxLocals code layout' frames)
        (lines.map fun line => (f line.1, line.2))) := by
  refine follows_sized _ (follows_listOf _ fun line hline => ?_)
  exact (follows_lift fun _ => h.offsetOfLabel (hlines line hline)).bind fun _ => .refl _

/-- An entry for a local variable follows. -/
theorem Again.variableEntry {v : LocalVariable} (hstart : v.start ∈ code.labels)
    (hstop : v.stop ∈ code.labels) (type : String) :
    Follows (Context.variableEntry ⟨code, layout, frames⟩ v type)
      (Context.variableEntry (againContext f maxStack maxLocals code layout' frames)
        (v.mapLabels f) type) := by
  unfold Context.variableEntry
  refine (follows_lift fun _ => h.offsetOfLabel hstart).bind fun start => ?_
  refine (follows_lift fun _ => h.offsetOfLabel hstop).bind fun stop => ?_
  split
  · exact follows_refuse _ _
  · exact .refl _

/-- An attribute about local variables follows. -/
theorem Again.variableTable? (name what : String) {locals : List LocalVariable}
    (hlocals : ∀ v ∈ locals, v.start ∈ code.labels ∧ v.stop ∈ code.labels)
    {type? : LocalVariable → Option String} (htype : ∀ v, type? (v.mapLabels f) = type? v) :
    Option.Rel Follows (Context.variableTable? ⟨code, layout, frames⟩ name what locals type?)
      (Context.variableTable? (againContext f maxStack maxLocals code layout' frames) name what
        (locals.map (LocalVariable.mapLabels f)) type?) := by
  have hentries : ((locals.map (LocalVariable.mapLabels f)).filterMap fun v =>
        (type? v).map fun type => (v, type)) =
      (locals.filterMap fun v => (type? v).map fun type => (v, type)).map fun entry =>
        (entry.1.mapLabels f, entry.2) := by
    rw [List.filterMap_map, List.map_filterMap]
    refine List.filterMap_congr fun v _ => ?_
    simp only [Function.comp_def, htype, Option.map_map]
  simp only [Context.variableTable?, hentries, List.isEmpty_map]
  unfold given
  split
  case isFalse => exact .none
  case isTrue =>
    refine .some (follows_sized _ (follows_listOf _ fun entry hentry => ?_))
    obtain ⟨v, hv, hsome⟩ := List.mem_filterMap.mp hentry
    obtain ⟨type, -, rfl⟩ := Option.map_eq_some_iff.mp hsome
    exact h.variableEntry (hlocals v hv).1 (hlocals v hv).2 type

/-- The attributes of code follow. -/
theorem Again.attributes (computeFrames : Bool) (indices : List Nat) :
    FollowsAll (Context.attributes ⟨code, layout, frames⟩ computeFrames indices)
      (Context.attributes (againContext f maxStack maxLocals code layout' frames) computeFrames
        indices) := by
  have hlocals : (reread f maxStack maxLocals code).localVariables.getD [] =
      (code.localVariables.getD []).map (LocalVariable.mapLabels f) := by
    show ((code.localVariables.map _).filter _).getD [] = _
    cases code.localVariables with
    | none => rfl
    | some locals => cases locals <;> rfl
  have hvariables : ∀ v ∈ code.localVariables.getD [],
      v.start ∈ code.labels ∧ v.stop ∈ code.labels := fun v hv => h.tidy.resolves.of_variable hv
  have hlines : Option.Rel Follows
      (code.lineNumbers.map (Context.lineNumberTable ⟨code, layout, frames⟩))
      ((reread f maxStack maxLocals code).lineNumbers.map
        (Context.lineNumberTable (againContext f maxStack maxLocals code layout' frames))) := by
    show Option.Rel Follows _ ((code.lineNumbers.map _).map _)
    cases hnumbers : code.lineNumbers with
    | none => exact .none
    | some lines =>
        refine .some (h.lineNumberTable fun line hline => h.tidy.resolves.of_line ?_)
        rw [hnumbers]
        exact hline
  have hrefl : ∀ attribute' : Option (PoolM Bytes), Option.Rel Follows attribute' attribute' := by
    intro attribute'
    cases attribute' with
    | none => exact .none
    | some work => exact .some (.refl work)
  unfold Context.attributes
  rw [hlocals, h.stackMapTable?]
  refine List.rel_append ?_ ?_
  · exact .cons (hrefl _) (.cons hlines (.cons (h.variableTable? _ _ hvariables fun _ => rfl)
      (.cons (h.variableTable? _ _ hvariables fun _ => rfl) .nil)))
  · exact List.forall₂_same.mpr fun one _ => hrefl one

end Tables

section Whole

variable {σ : Type} {supers : SuperClasses σ} {computeFrames : Bool} {cls : ClassName}
  {method : Method} {f : Label → Label} {code : Code} {frames : Option (Array (Option Frame))}
  {maxStack locals : UInt16} {pool pool' : Builder} {s s' : σ}

/-- **Code with other labels has the same bytes behind the sizes.** -/
theorem codeBody_again (hcode : KeptCode code) (hf : Set.InjOn f {label | label ∈ code.labels})
    (hsound : pool.Sound) {body : Bytes}
    (hrun : codeBody computeFrames code frames pool = .ok (body, pool')) :
    codeBody computeFrames (reread f maxStack locals code) frames pool = .ok (body, pool') := by
  obtain ⟨found, between, hitems, hrun⟩ := work_bind_eq_ok.mp hrun
  obtain ⟨layout, _, hlift, hrun⟩ := work_bind_eq_ok.mp hrun
  obtain ⟨hlayout, rfl⟩ := work_lift_eq_ok.mp hlift
  obtain ⟨hitems', huses⟩ := items_renamed hf
    (fun entry hentry => kept_of_readable (hcode.instructions entry hentry))
    (only_of_tidy hcode.tidy) hsound
    hitems
  have hlast : ∀ label, code.lastLabel = some label → label ∈ code.labels := fun label hlabel =>
    List.mem_append_right _ (Option.mem_toList.mpr hlabel)
  obtain ⟨layout', hlayout', hsame⟩ := Layout.ofItems_renamed hf huses hlast hlayout
  have hagain : Again f code layout layout' := ⟨hf, hcode.tidy, hsame⟩
  refine work_bind_eq_ok.mpr ⟨_, between, hitems', ?_⟩
  refine work_bind_eq_ok.mpr ⟨layout', between, work_lift_eq_ok.mpr ⟨hlayout', rfl⟩, ?_⟩
  rw [hsame.size]
  split at hrun
  case isTrue => cases hrun
  case isFalse hsome =>
    rw [if_neg hsome]
    have hfollows : Follows (do
          let context : Context := ⟨code, layout, frames⟩
          let indices ← context.frameIndices
          let exceptions ← context.exceptionTable
          let attributes' ← present (context.attributes computeFrames indices)
          return Bytes.ofU32 layout.size.toUInt32 ++ context.bytes ++ exceptions ++
            (← counted "code" attributes'))
        (do
          let context := againContext f maxStack locals code layout' frames
          let indices ← context.frameIndices
          let exceptions ← context.exceptionTable
          let attributes' ← present (context.attributes computeFrames indices)
          return Bytes.ofU32 layout.size.toUInt32 ++ context.bytes ++ exceptions ++
            (← counted "code" attributes')) := by
      simp only [hagain.frameIndices, hagain.bytes]
      refine (Follows.refl _).bind fun indices => hagain.exceptionTable.bind fun exceptions => ?_
      exact (follows_present (hagain.attributes _ _)).bind fun attributes' => .refl _
    exact hfollows _ _ hrun

/-- Code with other labels needs as many slots for local variables. -/
theorem maxLocals_again (held : Option Code) (maxStack locals : UInt16) :
    maxLocals { method with code := held } (reread f maxStack locals code) =
      maxLocals method code := by
  have hslots : ∀ instruction : Instruction,
      slotsUsed (instruction.mapLabels f) = slotsUsed instruction := by
    intro instruction
    cases instruction <;> rfl
  simp only [maxLocals, reread, Code.mapLabels, List.foldl_map, Labelled.mapLabels, hslots]

/-- Code with other labels, and the size of the stack that was found, has the same frames. -/
theorem analysis_again (hsteady : supers.Steady) (hcode : code.Tidy)
    (hf : Set.InjOn f {label | label ∈ code.labels}) (held : Option Code)
    (hrun : analysis supers computeFrames cls method code locals s = (.ok (maxStack, frames), s'))
    (t : σ) : ∃ t', analysis supers computeFrames cls { method with code := held }
      (reread f maxStack locals code) locals t = (.ok (maxStack, frames), t') := by
  have halike : ∀ supers : SuperClasses σ, supers.Steady →
      Alike (Frame.analyze supers cls method code locals)
        (Frame.analyze supers cls { method with code := held } (reread f maxStack locals code)
          locals) := fun supers hsteady =>
    Frame.analyze_alike hsteady hf hcode rfl rfl rfl cls method held locals
  unfold analysis at hrun ⊢
  split at hrun
  case isTrue hframes =>
    rw [if_pos hframes]
    obtain ⟨found, between, hfound, hrest⟩ := task_bind_eq_ok.mp hrun
    obtain ⟨heq, -⟩ := task_pure_eq_ok.mp hrest
    cases heq
    obtain ⟨t', hfound'⟩ := ((halike supers hsteady).within (.write .frames)).runs hfound t
    exact ⟨t', task_bind_eq_ok.mpr ⟨found, t', hfound', task_pure_eq_ok.mpr ⟨rfl, rfl⟩⟩⟩
  case isFalse hframes =>
    rw [if_neg hframes]
    have hsame := halike _ SuperClasses.steady_objectOnly
    match hleft : Frame.analyze (SuperClasses.objectOnly σ) cls method code locals s with
    | (.ok found, _) =>
        simp only [hleft] at hrun
        cases hrun
        obtain ⟨t', hright⟩ := hsame.runs hleft t
        exact ⟨t', by simp only [hright]⟩
    | (.error error, _) =>
        simp only [hleft] at hrun
        obtain ⟨t', hright⟩ := hsame.runs hleft t
        refine ⟨t', ?_⟩
        split at hrun
        case isTrue => cases hrun
        case isFalse hfatal =>
          -- Without frames the size of the stack is the one that stands in the code.
          cases hstack : code.maxStack with
          | none =>
              simp only [hstack] at hrun
              cases hrun
          | some size =>
              simp only [hstack] at hrun
              cases hrun
              simp only [hright, if_neg hfatal]
              rfl

/-- **Code that is read again is written again with the same bytes.** -/
theorem code_again (hsteady : supers.Steady) (hcode : KeptCode code)
    (hf : Set.InjOn f {label | label ∈ code.labels}) (hsound : pool.Sound) {body : Bytes}
    (hlocals : maxLocals method code = .ok locals)
    (hanalysis : analysis supers computeFrames cls method code locals s =
      (.ok (maxStack, frames), s'))
    (hbody : codeBody computeFrames code frames pool = .ok (body, pool')) (held : Option Code)
    (t : σ) : ∃ t', Encode.code supers computeFrames cls { method with code := held }
      (reread f maxStack locals code) pool t =
        (.ok (Bytes.ofU16 maxStack ++ Bytes.ofU16 locals ++ body, pool'), t') := by
  obtain ⟨t', hagain⟩ := analysis_again hsteady hcode.tidy hf held hanalysis t
  refine ⟨t', code_run.mpr ⟨locals, maxStack, frames, body, ?_, hagain, ?_, rfl⟩⟩
  · rw [maxLocals_again]
    exact hlocals
  · exact codeBody_again hcode hf hsound hbody

end Whole

end Encode

end Downlevel
