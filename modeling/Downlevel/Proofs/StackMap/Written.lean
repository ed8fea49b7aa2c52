import Mathlib
import Downlevel.Proofs.RoundTrip.Attribute
import Downlevel.Proofs.Reachable
import Downlevel.Proofs.StackMap.Format
import Downlevel.Proofs.StackMap.Places

/-!
# Frames that are written

The frames of a method are written in an attribute of its code.  Read as the format of class files has
it, the attribute lists what the analysis of the code found: where the bytes of an instruction stand
there is the frame of that instruction, with every object under construction told by where the
instruction stands that creates it.  There are frames wherever execution comes otherwise than from the
instruction in front, and at both ends of code that cannot be reached.

* `StackMap.Lists` — bytes that list frames;
* `StackMap.Tells` — frames tell what an analysis found;
* `Encode.reads_fullFrames` — frames are read as they are listed;
* `Encode.code_frames` — what is listed in code that is written.
-/

namespace Downlevel

namespace StackMap

open Parse Pool

/-- What is written to list frames is an attribute whose contents are read as them, or nothing if there
are none.  They are read with any table that has all that the pool holds, as the one does that is read
from its bytes (`Builder.Placed.covers`). -/
def Lists (pool : Builder) (size : Nat) (written : List Bytes) (frames : List (Nat × Frame)) : Prop :=
  (written = [] ∧ frames = []) ∨
    frames ≠ [] ∧ ∃ (name : UInt16) (contents : Bytes), contents.length < 4294967296 ∧
      written = [Bytes.ofU16 name ++ Bytes.ofU32 contents.length.toUInt32 ++ contents] ∧
      ∀ table : Table, table.Covers pool → table.utf8 name = .ok "StackMapTable" ∧
        ∀ locals, Reads (read table size locals) contents frames

/-- What is listed is the frame of the instruction that starts there.  In code that cannot be reached
it has only what is thrown there. -/
def Stands (code : Code) (layout : Layout) (body : Bytes) (size : Nat) (known : Array (Option Frame))
    (entry : Nat × Frame) : Prop :=
  (∃ (index : Nat) (frame : Frame) (chunk : Bytes), known[index]? = some (some frame) ∧
    layout.chunks[index]? = some chunk ∧ entry = (layout.offsetOf index, frame.placed layout) ∧
    HasAt body entry.1 chunk) ∨
  (code.Unreached layout entry.1 ∧ (HasAt body entry.1 [0x00] ∨ HasAt body entry.1 [0xbf]) ∧
    entry.2 = ⟨List.replicate size .top, [.object ClassName.javaThrowable]⟩)

/-- **Listed frames tell what an analysis found** of code that is laid out, where `body` is what is
written of it, `size` how many slots there are for local variables, and `known` what was found. -/
structure Tells (code : Code) (layout : Layout) (body : Bytes) (size : Nat)
    (known : Array (Option Frame)) (frames : List (Nat × Frame)) : Prop where
  increasing : (frames.map Prod.fst).Pairwise (· < ·)
  stands : ∀ entry ∈ frames, Stands code layout body size known entry
  /-- Objects under construction are told by where they are created. -/
  created : ∀ entry ∈ frames, ∀ place,
    .uninitialized place ∈ entry.2.locals ∨ .uninitialized place ∈ entry.2.stack →
      ∃ index creator name class', place = layout.offsetOf index ∧ code.Reachable index ∧
        code.instructions[index]? = some creator ∧ creator.instruction = .new name ∧
        HasAt body place (0xbb :: Bytes.ofU16 class')
  targets : ∀ (index : Nat) (entry : Labelled), code.instructions[index]? = some entry →
    code.Reachable index → ∀ label ∈ entry.instruction.targets,
      ∃ place ∈ frames.map Prod.fst, layout.labels[label]? = some place
  /-- An instruction may need a frame because the one in front never goes on with it, or is a condition
  that is written as its inverse around a jump. -/
  behind : ∀ (index : Nat) (entry : Labelled), code.instructions[index]? = some entry →
    code.Reachable index →
      entry.instruction.isUnconditional = true ∨
          (∃ condition target chunk, entry.instruction = .branch condition target ∧
            layout.chunks[index]? = some chunk ∧ 3 < chunk.length) →
        index + 1 < code.instructions.length → layout.offsetOf (index + 1) ∈ frames.map Prod.fst
  runs : ∀ run, code.UnreachedRun run → layout.offsetOf run.1 ∈ frames.map Prod.fst ∧
    (run.2 < code.instructions.length → layout.offsetOf run.2 ∈ frames.map Prod.fst)
  handlers : ∀ range ∈ code.exceptions,
    ∃ place ∈ frames.map Prod.fst, layout.labels[range.handler]? = some place

end StackMap

namespace Encode

open Parse Pool

/-! ## The table -/

section Table

variable {context : Context} {frames : Array (Option Frame)} {size : Nat}
  {pool pool' : Builder} {bytes : Bytes}

/-- The frame that is listed for an instruction, where `size` is how many slots there are for local
variables: its own, or, if it is never executed, one with nothing but what is thrown there. -/
def shownFrame (layout : Layout) (size : Nat) : Option Frame → Frame
  | some frame => frame.placed layout
  | none => ⟨List.replicate size .top, [.object ClassName.javaThrowable]⟩

/-- What is listed of a well-formed frame is the frame. -/
theorem fill_shownFrame (layout : Layout) {known : Option Frame}
    (hformed : ∀ frame, known = some frame → Frame.Paired frame.locals ∧ frame.locals.length = size) :
    (⟨StackMap.fill size ((Frame.compactLocals (known.getD Context.deadFrame).locals).map
        (VType.placed layout)),
      ((known.getD Context.deadFrame).stack.reverse.map (VType.placed layout)).reverse⟩ : Frame) =
      shownFrame layout size known := by
  cases known with
  | none => rfl
  | some frame =>
      obtain ⟨hpaired, hlength⟩ := hformed frame rfl
      show Frame.mk _ _ = frame.placed layout
      rw [Option.getD_some, StackMap.fill_compactLocals layout hpaired hlength, List.map_reverse,
        List.reverse_reverse]
      rfl

/-- **Frames are read as they are listed**, one behind the other. -/
theorem reads_fullFrames (hsmall : ∀ index, context.layout.offsetOf index < 65536)
    (hformed : ∀ (index : Nat) (frame : Frame), frames[index]? = some (some frame) →
      Frame.Paired frame.locals ∧ frame.locals.length = size)
    (hstrict : ∀ i j, i < j → j < frames.size → context.layout.offsetOf i < context.layout.offsetOf j)
    {indices : List Nat} (hsorted : indices.Pairwise (· < ·))
    {previous : Option Nat}
    (hprevious : ∀ before, previous = some before →
      ∀ index ∈ indices, index < frames.size → before < context.layout.offsetOf index)
    {done : List Bytes}
    (h : context.fullFrames frames previous done indices pool = .ok (bytes, pool')) :
    (∀ index ∈ indices, index < frames.size) ∧
      ∃ own, bytes = done.reverse.flatten ++ own ∧ ∀ table : Table, table.Covers pool' → ∀ locals,
        Reads (StackMap.entries table size indices.length previous locals) own
          (indices.map fun index => (context.layout.offsetOf index,
            shownFrame context.layout size (frames[index]?.getD none))) := by
  induction indices generalizing previous done pool with
  | nil =>
      obtain ⟨rfl, rfl⟩ := work_pure_eq_ok.mp h
      exact ⟨by simp, [], (List.append_nil _).symm, fun _ _ _ => reads_pure _⟩
  | cons index rest ih =>
      obtain ⟨hbelow, hothers⟩ := List.pairwise_cons.mp hsorted
      unfold Context.fullFrames at h
      dsimp only at h
      cases hknown : frames[index]? with
      | none =>
          simp only [hknown] at h
          cases (work_lift_eq_ok.mp h).1
      | some known =>
          simp only [hknown] at h
          obtain ⟨part, between, hpart, hrest⟩ := work_bind_eq_ok.mp h
          have hlater : ∀ before, some (context.layout.offsetOf index) = some before →
              ∀ other ∈ rest, other < frames.size → before < context.layout.offsetOf other := by
            rintro before hbefore other hother
            cases hbefore
            exact hstrict index other (hbelow other hother)
          obtain ⟨hbounds, own, rfl, hreads⟩ := ih hothers hlater hrest
          have hlt : index < frames.size := (Array.getElem?_eq_some_iff.mp hknown).1
          refine ⟨List.forall_mem_cons.mpr ⟨hlt, hbounds⟩,
            part ++ own, by simp, fun table htable locals => ?_⟩
          have hbetween : table.Covers between := StackMap.covers_of_within htable
            (PoolM.Enlarges.within hrest)
          obtain ⟨delta, hentry, hdelta, hbehind⟩ : ∃ delta,
              context.fullFrame delta (known.getD Context.deadFrame) pool = .ok (part, between) ∧
                delta < 65536 ∧ StackMap.place delta previous = context.layout.offsetOf index := by
            have hoffset := hsmall index
            cases previous with
            | none => exact ⟨_, hpart, hoffset, rfl⟩
            | some before =>
                have hless := hprevious before rfl index List.mem_cons_self hlt
                refine ⟨_, hpart, (Nat.sub_le _ _).trans_lt ((Nat.sub_le _ _).trans_lt hoffset), ?_⟩
                show before + (context.layout.offsetOf index - before - 1) + 1 = _
                omega
          refine (StackMap.reads_entry hdelta hsmall hentry hbetween locals).bind ?_
          dsimp only
          rw [hbehind, List.map_cons, hknown, fill_shownFrame context.layout
            fun frame hframe => hformed index frame (hframe ▸ hknown)]
          exact (hreads table htable _).map _

/-- An attribute that is there is written in front of the others. -/
theorem present_some {work : PoolM Bytes} {rest : Attributes} {written : List Bytes}
    (h : present (some work :: rest) pool = .ok (written, pool')) : ∃ part between others,
      work pool = .ok (part, between) ∧ present rest between = .ok (others, pool') ∧
        written = part :: others := by
  have h : ((work :: rest.filterMap id).mapM id) pool = .ok (written, pool') := h
  rw [List.mapM_cons] at h
  obtain ⟨part, between, hpart, h⟩ := work_bind_eq_ok.mp h
  obtain ⟨others, _, hothers, h⟩ := work_bind_eq_ok.mp h
  obtain ⟨rfl, rfl⟩ := work_pure_eq_ok.mp h
  exact ⟨part, between, others, hpart, hothers, rfl⟩

/-- An attribute has its name and its size in front of its contents. -/
theorem sized_run {name : String} {work : PoolM Bytes}
    (h : sized name work pool = .ok (bytes, pool')) : ∃ contents between index,
      work pool = .ok (contents, between) ∧ PoolM.utf8 name between = .ok (index, pool') ∧
        contents.length < 4294967296 ∧
        bytes = Bytes.ofU16 index ++ Bytes.ofU32 contents.length.toUInt32 ++ contents := by
  obtain ⟨contents, between, hcontents, h⟩ := work_bind_eq_ok.mp h
  obtain ⟨name', named, hname, h⟩ := work_bind_eq_ok.mp h
  obtain ⟨index, _, hindex, hpure⟩ := work_bind_eq_ok.mp hname
  obtain ⟨rfl, rfl⟩ := work_pure_eq_ok.mp hpure
  obtain ⟨length, _, hlength, h⟩ := work_bind_eq_ok.mp h
  obtain ⟨hcount, rfl⟩ := work_lift_eq_ok.mp hlength
  obtain ⟨hsmall, rfl⟩ := count32_eq_ok.mp hcount
  obtain ⟨rfl, rfl⟩ := work_pure_eq_ok.mp h
  exact ⟨contents, between, index, hcontents, hindex, hsmall, rfl⟩

/-- **The frames of instructions are listed** in an attribute in front of the others, if there are any
such instructions. -/
theorem lists_stackMapTable (hframes : context.frames = some frames)
    (hsmall : ∀ index, context.layout.offsetOf index < 65536)
    (hformed : ∀ (index : Nat) (frame : Frame), frames[index]? = some (some frame) →
      Frame.Paired frame.locals ∧ frame.locals.length = size)
    (hstrict : ∀ i j, i < j → j < frames.size → context.layout.offsetOf i < context.layout.offsetOf j)
    {indices : List Nat} (hsorted : indices.Pairwise (· < ·))
    {written : List Bytes}
    (h : present (context.attributes true indices) pool = .ok (written, pool')) :
    (∀ index ∈ indices, index < frames.size) ∧ ∃ listed others between,
      written = listed ++ others ∧
      present (context.attributes false []) between = .ok (others, pool') ∧
      StackMap.Lists pool' size listed (indices.map fun index => (context.layout.offsetOf index,
        shownFrame context.layout size (frames[index]?.getD none))) := by
  cases indices with
  | nil =>
      have hnone : context.attributes true [] = context.attributes false [] := by
        simp [Context.attributes, Context.stackMapTable?, hframes, given]
      exact ⟨by simp, [], written, pool, rfl, hnone ▸ h, .inl ⟨rfl, rfl⟩⟩
  | cons first rest =>
      have hsome : context.attributes true (first :: rest) =
          some (sized "StackMapTable" do
            let count ← count16 (.tooMany "frames") (first :: rest).length
            return count ++ (← context.fullFrames frames none [] (first :: rest))) ::
              (context.attributes false []).tail := by
        simp [Context.attributes, Context.stackMapTable?, hframes, given]
      rw [hsome] at h
      obtain ⟨part, between, others, hpart, hrest, rfl⟩ := present_some h
      have hothers : present (context.attributes false []) between = .ok (others, pool') := hrest
      obtain ⟨contents, filled, name, hcontents, hname, hlarge, rfl⟩ := sized_run hpart
      obtain ⟨count, counted, hcount, hcontents⟩ := work_bind_eq_ok.mp hcontents
      obtain ⟨hcount, hcounted⟩ := work_lift_eq_ok.mp hcount
      obtain ⟨hfew, rfl⟩ := count16_eq_ok.mp hcount
      obtain ⟨entries, _, hentries, hcontents⟩ := work_bind_eq_ok.mp hcontents
      obtain ⟨rfl, rfl⟩ := work_pure_eq_ok.mp hcontents
      obtain ⟨hbounds, own, rfl, hreads⟩ := reads_fullFrames hsmall hformed hstrict
        hsorted
        (fun _ hbefore => by cases hbefore) hentries
      refine ⟨hbounds, _, others, between, List.singleton_append.symm, hothers, .inr ⟨by simp, name,
        _, hlarge, rfl, fun table htable => ?_⟩⟩
      have hbetween := StackMap.covers_of_within htable
        (PoolM.Enlarges.within hothers)
      refine ⟨StackMap.utf8_of_covers hname hbetween, fun locals => ?_⟩
      have hfilled := StackMap.covers_of_within hbetween (PoolM.Enlarges.within hname)
      refine (reads_u16 _).bind ?_
      rw [UInt16.toNat_ofNat_of_lt' hfew]
      exact hreads table hfilled locals

end Table

section Written

variable {σ : Type} {supers : SuperClasses σ} {cls : ClassName} {method : Method} {code : Code}
  {layout : Layout} {pool pool' : Builder} {known : Array (Option Frame)} {state state' : σ}

/-- An offset in code that cannot be reached is that of an instruction that does nothing, or throws. -/
theorem Neutralised.byte {body : Bytes} (h : Neutralised code layout body) {offset : Nat}
    (hoffset : code.Unreached layout offset) :
    HasAt body offset [0x00] ∨ HasAt body offset [0xbf] := by
  obtain ⟨run, hrun, hge, hlt⟩ := hoffset
  obtain ⟨n, hn, front, rest, hbody, hfront⟩ := h.replaced run hrun
  obtain ⟨k, hk⟩ := Nat.exists_eq_add_of_le hge
  by_cases hlast : k = n
  · refine .inr ⟨front ++ List.replicate n 0x00, rest, ?_, ?_⟩
    · rw [hbody]
      simp
    · rw [List.length_append, List.length_replicate, hfront, hk, hlast]
  · refine .inl ⟨front ++ List.replicate k 0x00, List.replicate (n - k - 1) 0x00 ++ 0xbf :: rest,
      ?_, ?_⟩
    · have hsplit : List.replicate n (0x00 : UInt8) =
          List.replicate k 0x00 ++ 0x00 :: List.replicate (n - k - 1) 0x00 := by
        rw [← List.replicate_succ, List.replicate_append_replicate]
        congr 1
        omega
      rw [hbody, hsplit]
      simp
    · rw [List.length_append, List.length_replicate, hfront, hk]

/-- An object under construction is told by the bytes of the instruction that creates it. -/
theorem Found.created (h : Found code known) {placed : List (Option Label × CodeItem)}
    {filled : Builder} (hitems : items code.instructions pool = .ok (placed, filled))
    (hlayout : Layout.ofItems placed code.lastLabel = .ok layout) {index : Nat}
    (hcreates : code.Creates index) : ∃ creator name class', code.instructions[index]? = some creator ∧
      creator.instruction = .new name ∧
      HasAt (Context.mk code layout (some known)).bytes (layout.offsetOf index)
        (0xbb :: Bytes.ofU16 class') := by
  obtain ⟨hreach, creator, name, hcreator, hnew⟩ := hcreates
  obtain ⟨⟨label, item⟩, hitem, -, before, after, hrun⟩ := items_getElem? hitems hcreator
  rw [hnew] at hrun
  obtain ⟨class', _, -, hrun⟩ := work_bind_eq_ok.mp hrun
  obtain ⟨rfl, -⟩ := work_pure_eq_ok.mp hrun
  have hneutral := h.neutralised hitems hlayout
  have hlt : index < layout.chunks.length :=
    hneutral.size ▸ (List.getElem?_eq_some_iff.mp hcreator).1
  have hchunk := List.getElem?_eq_getElem hlt
  obtain ⟨known, start, hfilled⟩ := Layout.chunk_of_item hlayout hitem hchunk
  exact ⟨creator, name, class', hcreator, hnew, hfilled.plain ▸ hneutral.kept index _ hchunk hreach⟩

/-- A condition that takes more than three bytes is marked. -/
theorem wide_of_branch {placed : List (Option Label × CodeItem)} {filled : Builder}
    (hitems : items code.instructions pool = .ok (placed, filled))
    (hlayout : Layout.ofItems placed code.lastLabel = .ok layout) {index : Nat} {entry : Labelled}
    (hentry : code.instructions[index]? = some entry) {condition : Condition} {target : Label}
    (hbranch : entry.instruction = .branch condition target) {chunk : Bytes}
    (hchunk : layout.chunks[index]? = some chunk) (hlong : 3 < chunk.length) :
    layout.wide.contains index = true := by
  obtain ⟨⟨label, item⟩, hitem, -, before, after, hrun⟩ := items_getElem? hitems hentry
  rw [hbranch] at hrun
  obtain ⟨rfl, -⟩ := work_pure_eq_ok.mp hrun
  obtain ⟨known, start, hfilled⟩ := Layout.chunk_of_item hlayout hitem hchunk
  cases hwide : layout.wide.contains index with
  | true => rfl
  | false =>
      rw [hwide] at hfilled
      exact absurd hfilled.length_eq (Nat.ne_of_gt hlong)

/-- Instructions start one behind the other, and behind the last one the code ends. -/
theorem Found.offset_strict (h : Found code known) {placed : List (Option Label × CodeItem)}
    {filled : Builder} (hitems : items code.instructions pool = .ok (placed, filled))
    (hlayout : Layout.ofItems placed code.lastLabel = .ok layout) {i j : Nat} (hlt : i < j)
    (hle : j ≤ known.size) : layout.offsetOf i < layout.offsetOf j :=
  Layout.offsetOf_strict hlayout (items_ne_nil hitems).2 hlt
    ((items_forall₂ hitems).length_eq ▸ h.size ▸ hle)

/-- **The frame that is listed for an instruction** stands where that starts, or in code that cannot be
reached. -/
theorem Found.stands (h : Found code known) {placed : List (Option Label × CodeItem)}
    {filled : Builder} (hitems : items code.instructions pool = .ok (placed, filled))
    (hlayout : Layout.ofItems placed code.lastLabel = .ok layout) (size : Nat) {index : Nat}
    (hlt : index < known.size) :
    StackMap.Stands code layout (Context.mk code layout (some known)).bytes size known
      (layout.offsetOf index, shownFrame layout size (known[index]?.getD none)) := by
  have hneutral := h.neutralised hitems hlayout
  have hstrict {i j : Nat} := h.offset_strict hitems hlayout (i := i) (j := j)
  have hknown := Array.getElem?_eq_getElem hlt
  cases hown : known[index] with
  | some frame =>
      rw [hown] at hknown
      have hchunk := List.getElem?_eq_getElem (hneutral.size ▸ h.size ▸ hlt)
      have hreach := (h.reachable index).mp ⟨frame, hknown⟩
      rw [hknown]
      exact .inl ⟨index, frame, _, hknown, hchunk, rfl, hneutral.kept index _ hchunk hreach⟩
  | none =>
      rw [hown] at hknown
      have hunreached : ¬ code.Reachable index := fun hreach => by
        obtain ⟨frame, hframe⟩ := (h.reachable index).mpr hreach
        cases hknown.symm.trans hframe
      obtain ⟨run, hrun, hge, hless⟩ := Code.exists_unreachedRun (h.size ▸ hlt) hunreached
      have hbegins : layout.offsetOf run.1 ≤ layout.offsetOf index := by
        rcases Nat.eq_or_lt_of_le hge with hsame | hbefore
        · rw [hsame]
        · exact Nat.le_of_lt (hstrict hbefore (Nat.le_of_lt hlt))
      have hoffset : code.Unreached layout (layout.offsetOf index) :=
        ⟨run, hrun, hbegins, hstrict hless (h.size ▸ hrun.le)⟩
      rw [hknown]
      exact .inr ⟨hoffset, hneutral.byte hoffset, rfl⟩

/-- An object under construction in a frame that is listed is one in the frame itself, told by where the
instruction starts. -/
theorem uninitialized_shownFrame {size place : Nat} {own : Option Frame}
    (h : .uninitialized place ∈ (shownFrame layout size own).locals ∨
      .uninitialized place ∈ (shownFrame layout size own).stack) :
    ∃ frame index, own = some frame ∧ place = layout.offsetOf index ∧
      (.uninitialized index ∈ frame.locals ∨ .uninitialized index ∈ frame.stack) := by
  have hplaced {type : VType} (heq : type.placed layout = .uninitialized place) :
      ∃ index, type = .uninitialized index ∧ place = layout.offsetOf index := by
    cases type with
    | uninitialized index =>
        cases heq
        exact ⟨index, rfl, rfl⟩
    | _ => cases heq
  cases own with
  | some frame =>
      simp only [shownFrame, Frame.placed, List.mem_map] at h
      rcases h with ⟨type, hmem, heq⟩ | ⟨type, hmem, heq⟩
      · obtain ⟨index, rfl, hplace⟩ := hplaced heq
        exact ⟨frame, index, rfl, hplace, .inl hmem⟩
      · obtain ⟨index, rfl, hplace⟩ := hplaced heq
        exact ⟨frame, index, rfl, hplace, .inr hmem⟩
  | none =>
      simp only [shownFrame, List.mem_replicate, List.mem_singleton] at h
      rcases h with ⟨-, heq⟩ | heq <;> cases heq

/-- **Frames that are listed tell what was found.** -/
theorem Found.tells (h : Found code known) {placed : List (Option Label × CodeItem)} {filled : Builder}
    (hitems : items code.instructions pool = .ok (placed, filled))
    (hlayout : Layout.ofItems placed code.lastLabel = .ok layout) {size : Nat}
    (hformed : ∀ (index : Nat) (frame : Frame), known[index]? = some (some frame) →
      frame.Formed (VType.Created code) size)
    {indices : List Nat}
    (hindices : (Context.mk code layout (some known)).frameIndices = .ok indices)
    (hbounds : ∀ index ∈ indices, index < known.size) :
    StackMap.Tells code layout (Context.mk code layout (some known)).bytes size known
      (indices.map fun index =>
        (layout.offsetOf index, shownFrame layout size (known[index]?.getD none))) := by
  obtain ⟨hsorted, hlive, hruns, hhandlers⟩ := frameIndices_spec rfl hindices
  let frames := indices.map fun index =>
    (layout.offsetOf index, shownFrame layout size (known[index]?.getD none))
  have hoffsets : frames.map Prod.fst = indices.map layout.offsetOf := List.map_map
  have hlabels := Layout.labels_ofItems hlayout ((items_forall₂ hitems).imp fun _ _ hitem => hitem.1)
  have hlisted : ∀ index ∈ indices, layout.offsetOf index ∈ frames.map Prod.fst :=
    fun index hmem => hoffsets ▸ List.mem_map_of_mem hmem
  have hlabelled : ∀ label : Label, (∃ index ∈ indices, code.labelIndices[label]? = some index) →
      ∃ place ∈ frames.map Prod.fst, layout.labels[label]? = some place := by
    rintro label ⟨index, hmem, hindex⟩
    exact ⟨_, hlisted index hmem, by rw [hlabels, hindex, Option.map_some]⟩
  have hneeds : ∀ (index : Nat) (entry : Labelled), code.instructions[index]? = some entry →
      code.Reachable index → ∃ needed,
        (Context.mk code layout (some known)).framesAfter code.labelIndices code.instructions.length
          index entry.instruction = .ok needed ∧ ∀ target ∈ needed, target ∈ indices := by
    intro index entry hentry hreach
    have hflag : (Context.mk code layout (some known)).reachable[index]? = some true :=
      h.live.mpr ⟨(List.getElem?_eq_some_iff.mp hentry).1, iff_of_true rfl hreach⟩
    exact hlive index entry (List.getElem?_zip_eq_some.mpr ⟨hflag, hentry⟩)
  constructor
  case increasing =>
    rw [hoffsets, List.pairwise_map]
    exact hsorted.imp_of_mem fun _ hmem hlt =>
      h.offset_strict hitems hlayout hlt (Nat.le_of_lt (hbounds _ hmem))
  case stands =>
    intro entry hentry
    obtain ⟨index, hmem, rfl⟩ := List.mem_map.mp hentry
    exact h.stands hitems hlayout size (hbounds index hmem)
  case created =>
    intro entry hentry place hplace
    obtain ⟨index, hmem, rfl⟩ := List.mem_map.mp hentry
    obtain ⟨frame, creator, hown, rfl, hin⟩ := uninitialized_shownFrame hplace
    have hknown : known[index]? = some (some frame) := by
      rw [Array.getElem?_eq_getElem (hbounds index hmem)] at hown ⊢
      exact congrArg some hown
    have hcreates : code.Creates creator :=
      hin.elim (fun hin => (hformed index frame hknown).locals _ hin creator rfl)
        fun hin => (hformed index frame hknown).stack _ hin creator rfl
    obtain ⟨new, name, class', hnew, hname, hat⟩ := h.created hitems hlayout hcreates
    exact ⟨creator, new, name, class', rfl, hcreates.1, hnew, hname, hat⟩
  case targets =>
    intro index entry hentry hreach label hlabel
    obtain ⟨needed, hneeded, hall⟩ := hneeds index entry hentry hreach
    obtain ⟨target, htarget, hplace⟩ := (mem_framesAfter hneeded).1 label hlabel
    exact hlabelled label ⟨target, hall target htarget, hplace⟩
  case behind =>
    intro index entry hentry hreach hneed hmore
    obtain ⟨needed, hneeded, hall⟩ := hneeds index entry hentry hreach
    refine hlisted _ (hall _ ((mem_framesAfter hneeded).2 (hneed.imp_right ?_) hmore))
    rintro ⟨condition, target, chunk, hbranch, hchunk, hlong⟩
    exact ⟨⟨condition, target, hbranch⟩, wide_of_branch hitems hlayout hentry hbranch hchunk hlong⟩
  case runs =>
    intro run hrun
    obtain ⟨hfirst, hlast⟩ := hruns run (mem_deadRuns.mpr (h.run_iff.mpr hrun))
    exact ⟨hlisted _ hfirst, fun hmore => hlisted _ (hlast hmore)⟩
  case handlers =>
    intro range hrange
    exact hlabelled _ (hhandlers range hrange)

/-- **The frames of a method are written as its analysis found them.**  In code that is written with
frames, the first attribute lists them.  There are frames for all instructions that need one, in the
order of where they start, and what is read of each is the frame that the analysis found. -/
theorem code_frames {bytes : Bytes}
    (h : Encode.code supers true cls method code pool state = (.ok (bytes, pool'), state')) :
    ∃ locals found placed filled layout table between listed others frames,
      maxLocals method code = .ok locals ∧
      Frame.analyze supers cls method code locals state = (.ok found, state') ∧
      items code.instructions pool = .ok (placed, filled) ∧
      Layout.ofItems placed code.lastLabel = .ok layout ∧
      (Context.mk code layout (some found.frames)).exceptionTable filled = .ok (table, between) ∧
      (∃ between, present ((Context.mk code layout (some found.frames)).attributes false []) between =
        .ok (others, pool')) ∧
      (listed ++ others).length < 65536 ∧
      ∃ body, bytes = Bytes.ofU16 found.maxStack ++ Bytes.ofU16 locals ++
          (Bytes.ofU32 layout.size.toUInt32 ++ body ++ table ++
            (Bytes.ofU16 (listed ++ others).length.toUInt16 ++ (listed ++ others).flatten)) ∧
        Neutralised code layout body ∧
        StackMap.Lists pool' locals.toNat listed frames ∧
        StackMap.Tells code layout body locals.toNat found.frames frames := by
  obtain ⟨locals, maxStack, known, body, hlocals, hanalysis, hbody, rfl⟩ := code_run.mp h
  obtain ⟨found, _, hfound, hanalysis⟩ := task_bind_eq_ok.mp hanalysis
  obtain ⟨heq, rfl⟩ := task_pure_eq_ok.mp hanalysis
  cases heq
  have hfound := task_within_eq_ok.mp hfound
  have hframes : Found code found.frames :=
    ⟨Frame.analyze_size hfound, (Frame.analyze_reachable hfound).1⟩
  obtain ⟨placed, filled, layout, indices, table, between, attributes, rest, hitems, hlayout,
    hindices, htable, hattributes, hrest, rfl⟩ := codeBody_eq_ok hbody
  have hformed (index : Nat) (frame : Frame) (hframe : found.frames[index]? = some (some frame)) :
      frame.Formed (VType.Created code) locals.toNat :=
    Frame.analyze_created hfound hframe
  obtain ⟨hbounds, listed, others, written, rfl, hothers, hlists⟩ := lists_stackMapTable rfl
    (Layout.offsetOf_lt hlayout)
    (fun index frame hframe => ⟨(hformed index frame hframe).paired, (hformed index frame hframe).length⟩)
    (fun _ _ hlt hle => hframes.offset_strict hitems hlayout hlt (Nat.le_of_lt hle))
    (frameIndices_spec rfl hindices).1 hattributes
  obtain ⟨count, hcount, hrest⟩ := bind_eq_ok.mp hrest
  obtain ⟨hfew, rfl⟩ := count16_eq_ok.mp hcount
  cases pure_eq_ok.mp hrest
  exact ⟨locals, found, placed, filled, layout, table, between, listed, others, _, hlocals, hfound,
    hitems, hlayout, htable, ⟨written, hothers⟩, hfew, _, rfl, hframes.neutralised hitems hlayout, hlists,
    hframes.tells hitems hlayout hformed hindices hbounds⟩

end Written

section Example

open Downlevel.Frame Downlevel.PoolM Builder

/-- What the pool has when the frames of the code are written. -/
def skippingEntries : List Entry :=
  [.utf8 (.ofString "java/lang/Throwable"), .cls 1, .utf8 (.ofString "StackMapTable")]

/-- The frames of the code, as an attribute. -/
def skippingTable : Bytes :=
  [0x00, 0x03, 0x00, 0x00, 0x00, 0x16, 0x00, 0x02, 0xff, 0x00, 0x01, 0x00, 0x00, 0x00, 0x01, 0x07,
    0x00, 0x02, 0xff, 0x00, 0x00, 0x00, 0x00, 0x00, 0x01, 0x07, 0x00, 0x02]

/-- Both frames have what is thrown on the stack. -/
theorem present_skippingContext : present (skippingContext.attributes true [1, 2]) {} =
    .ok ([skippingTable], filled skippingEntries) := by
  have htext : put (.utf8 (.ofString "java/lang/Throwable")) (filled []) =
      .ok (1, filled (skippingEntries.take 1)) :=
    put_filled (by decide) (by decide)
  have hthrowable : PoolM.cls ClassName.javaThrowable {} = .ok (2, filled (skippingEntries.take 2)) :=
    work_bind_eq_ok.mpr ⟨1, _, htext, put_filled (by decide) (by decide)⟩
  have hagain : PoolM.cls ClassName.javaThrowable (filled (skippingEntries.take 2)) =
      .ok (2, filled (skippingEntries.take 2)) := by
    cbv
  have hfirst : skippingContext.fullFrame 1 Context.deadFrame {} = .ok ([0xff, 0x00, 0x01, 0x00, 0x00,
      0x00, 0x01, 0x07, 0x00, 0x02], filled (skippingEntries.take 2)) := by
    refine work_bind_eq_ok.mpr ⟨[0x00, 0x00], _, rfl, ?_⟩
    refine work_bind_eq_ok.mpr ⟨[0x00, 0x01, 0x07, 0x00, 0x02], _, ?_, rfl⟩
    refine listOf_eq_ok.mpr ⟨by decide, [[0x07, 0x00, 0x02]], ?_, rfl⟩
    exact work_bind_eq_ok.mpr ⟨_, _, work_bind_eq_ok.mpr ⟨2, _, hthrowable, rfl⟩, rfl⟩
  have hsecond : skippingContext.fullFrame 0 ⟨[], [.object ClassName.javaThrowable]⟩
      (filled (skippingEntries.take 2)) = .ok ([0xff, 0x00, 0x00, 0x00, 0x00, 0x00, 0x01, 0x07, 0x00,
        0x02], filled (skippingEntries.take 2)) := by
    refine work_bind_eq_ok.mpr ⟨[0x00, 0x00], _, rfl, ?_⟩
    refine work_bind_eq_ok.mpr ⟨[0x00, 0x01, 0x07, 0x00, 0x02], _, ?_, rfl⟩
    refine listOf_eq_ok.mpr ⟨by decide, [[0x07, 0x00, 0x02]], ?_, rfl⟩
    exact work_bind_eq_ok.mpr ⟨_, _, work_bind_eq_ok.mpr ⟨2, _, hagain, rfl⟩, rfl⟩
  have hname : indexed (PoolM.utf8 "StackMapTable") (filled (skippingEntries.take 2)) =
      .ok ([0x00, 0x03], filled skippingEntries) :=
    work_bind_eq_ok.mpr ⟨3, _, put_filled (by decide) (by decide), rfl⟩
  refine work_bind_eq_ok.mpr ⟨skippingTable, filled skippingEntries, ?_, rfl⟩
  refine work_bind_eq_ok.mpr ⟨skippingTable.drop 6, _, ?_, work_bind_eq_ok.mpr ⟨_, _, hname, rfl⟩⟩
  refine work_bind_eq_ok.mpr ⟨[0x00, 0x02], _, rfl, work_bind_eq_ok.mpr ⟨_, _, ?_, rfl⟩⟩
  exact work_bind_eq_ok.mpr ⟨_, _, hfirst, work_bind_eq_ok.mpr ⟨_, _, hsecond, rfl⟩⟩

/-- The code with its frames: in both there are no local variables, and on the stack is what is thrown. -/
theorem code_frames_skipping : ∃ pool bytes,
    Encode.code (SuperClasses.objectOnly Unit) true "a/A" skippingMethod skippingCode {} () =
      (.ok (bytes, pool), ()) ∧
    ∃ layout body frames, Neutralised skippingCode layout body ∧
      StackMap.Tells skippingCode layout body 0 skippingFrames frames ∧
      ∃ listed, StackMap.Lists pool 0 listed frames := by
  obtain ⟨hlocals, hanalyze⟩ := analyze_skippingCode
  have hanalysis : analysis (SuperClasses.objectOnly Unit) true "a/A" skippingMethod skippingCode 0
      () = (.ok (1, some skippingFrames), ()) :=
    task_bind_eq_ok.mpr ⟨_, (), task_within_eq_ok.mpr hanalyze, rfl⟩
  have hcode := code_run.mpr ⟨0, 1, _, _, hlocals, hanalysis,
    codeBody_skippingCode present_skippingContext rfl, rfl⟩
  obtain ⟨locals, found, _, _, layout, _, _, listed, _, frames, hlocals', hfound, _, _, _, _, _, body, _,
    hneutral, hlists, htells⟩ := code_frames hcode
  cases hlocals.symm.trans hlocals'
  cases hanalyze.symm.trans hfound
  exact ⟨_, _, hcode, layout, body, frames, hneutral, htells, listed, hlists⟩

end Example

end Encode

end Downlevel
