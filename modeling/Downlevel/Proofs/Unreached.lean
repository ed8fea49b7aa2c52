import Mathlib.Data.Set.List
import Downlevel.Proofs.DeadCode
import Downlevel.Proofs.Emitting
import Downlevel.Proofs.Pool.Growth
import Downlevel.Proofs.Reachable

/-!
# Code that cannot be reached

An analysis finds frames for exactly the instructions that execution can reach, and instructions without
a frame are not written as they are.  So in the code that is written everything that can be reached
stands where it would stand otherwise, and each run of other instructions is filled up, in as many bytes,
with instructions that do nothing and a last one that throws.  Exceptions are caught in the part of their
ranges that can be reached.

* `Code.UnreachedRun` — a run of instructions that cannot be reached;
* `Encode.Neutralised` — what the bytes of code are then;
* `Encode.RangeWritten` — what is written of a range in which exceptions are caught;
* `Encode.code_neutralised` — code is written like that.
-/

namespace Downlevel

/-- A run of instructions that execution cannot reach, which is as long as possible: from an index up
to, but not including, another one. -/
structure Code.UnreachedRun (code : Code) (run : Nat × Nat) : Prop where
  lt : run.1 < run.2
  le : run.2 ≤ code.instructions.length
  unreached : ∀ index, run.1 ≤ index → index < run.2 → ¬ code.Reachable index
  before : ∀ index, run.1 = index + 1 → code.Reachable index
  behind : run.2 < code.instructions.length → code.Reachable run.2

/-- An offset is within a run of instructions that execution cannot reach. -/
def Code.Unreached (code : Code) (layout : Layout) (offset : Nat) : Prop :=
  ∃ run, code.UnreachedRun run ∧ layout.offsetOf run.1 ≤ offset ∧ offset < layout.offsetOf run.2

namespace Encode

/-- **Exactly the code that cannot be reached is replaced.**  Every instruction has bytes and stands
where it starts.  In what is written instead, those that can be reached stand there, too, and each run
of others is filled up with instructions that do nothing and a last one that throws. -/
structure Neutralised (code : Code) (layout : Layout) (body : Bytes) : Prop where
  size : layout.chunks.length = code.instructions.length
  length : body.length = layout.size
  stands : ∀ (index : Nat) (chunk : Bytes), layout.chunks[index]? = some chunk →
    chunk ≠ [] ∧ HasAt layout.chunks.flatten (layout.offsetOf index) chunk
  kept : ∀ (index : Nat) (chunk : Bytes), layout.chunks[index]? = some chunk → code.Reachable index →
    HasAt body (layout.offsetOf index) chunk
  replaced : ∀ run, code.UnreachedRun run → ∃ n,
    layout.offsetOf run.2 = layout.offsetOf run.1 + (n + 1) ∧
      HasAt body (layout.offsetOf run.1) (List.replicate n 0x00 ++ [0xbf])

/-- **What is written of an exception range**: entries with its handler and the class that it catches,
for ranges one behind the other that have exactly the offsets of the range that can be reached.  There
is no entry if all of it lies in code that cannot be reached. -/
def RangeWritten (code : Code) (layout : Layout) (pool : Pool.Builder) (range : ExceptionRange)
    (entries : List Bytes) : Prop :=
  ∃ (start stop handler caught : UInt16) (ranges : List (UInt16 × UInt16)),
    layout.offsetOfLabel range.start = .ok start ∧
    layout.offsetOfLabel range.stop = .ok stop ∧
    layout.offsetOfLabel range.handler = .ok handler ∧
    (ranges ≠ [] → pool.TellsCaught range.caught caught) ∧
    entries = (ranges.map fun r =>
      Bytes.ofU16 r.1 ++ Bytes.ofU16 r.2 ++ Bytes.ofU16 handler ++ Bytes.ofU16 caught) ∧
    (ranges.Pairwise fun a b => a.2 ≤ b.1) ∧
    (∀ offset : Nat, (∃ r ∈ ranges, r.1.toNat ≤ offset ∧ offset < r.2.toNat) ↔
      (start.toNat ≤ offset ∧ offset < stop.toNat) ∧ ¬ code.Unreached layout offset) ∧
    ((∃ run, code.UnreachedRun run) → ∀ r ∈ ranges, r.1 < r.2) ∧
    ((¬ ∃ run, code.UnreachedRun run) → ranges = [(start, stop)]) ∧
    (entries = [] ↔ (∃ run, code.UnreachedRun run) ∧
      ∀ offset : Nat, start.toNat ≤ offset → offset < stop.toNat → code.Unreached layout offset)

/-- What is written of an exception range stays when the pool grows. -/
theorem RangeWritten.mono {code : Code} {layout : Layout} {pool pool' : Pool.Builder}
    {range : ExceptionRange} {entries : List Bytes} (h : RangeWritten code layout pool range entries)
    (hwithin : pool.Within pool') : RangeWritten code layout pool' range entries := by
  obtain ⟨start, stop, handler, caught, ranges, hstart, hstop, hhandler, hcaught, hrest⟩ := h
  exact ⟨start, stop, handler, caught, ranges, hstart, hstop, hhandler,
    fun hsome => (hcaught hsome).mono hwithin, hrest⟩

section Written

variable {σ : Type} {supers : SuperClasses σ} {computeFrames : Bool} {cls : ClassName}
  {method : Method} {code : Code} {layout : Layout} {pool pool' : Pool.Builder}
  {frames : Array (Option Frame)} {body : Bytes} {state state' between : σ}

/-- What is known of frames that an analysis found. -/
structure Found (code : Code) (frames : Array (Option Frame)) : Prop where
  size : frames.size = code.instructions.length
  reachable : ∀ index, (∃ frame, frames[index]? = some (some frame)) ↔ code.Reachable index

/-- Instructions are taken to be executed if they can be reached. -/
theorem Found.live (h : Found code frames) {index : Nat} {flag : Bool} :
    (Context.mk code layout (some frames)).reachable[index]? = some flag ↔
      index < code.instructions.length ∧ (flag = true ↔ code.Reachable index) := by
  show (frames.toList.map Option.isSome)[index]? = some flag ↔ _
  rw [List.getElem?_map, Array.getElem?_toList, ← h.size, ← h.reachable index]
  by_cases hlt : index < frames.size
  · rw [Array.getElem?_eq_getElem hlt]
    cases frames[index] <;> cases flag <;> simp [hlt]
  · rw [Array.getElem?_eq_none (Nat.le_of_not_lt hlt)]
    simp [hlt]

/-- The runs of instructions that are not executed are those that cannot be reached. -/
theorem Found.run_iff (h : Found code frames) {run : Nat × Nat} :
    DeadRun (Context.mk code layout (some frames)).reachable run ↔ code.UnreachedRun run := by
  have hlength : (Context.mk code layout (some frames)).reachable.length =
      code.instructions.length := by
    show (frames.toList.map Option.isSome).length = _
    rw [List.length_map, Array.length_toList, h.size]
  have hdead : ∀ index, index < code.instructions.length →
      ((Context.mk code layout (some frames)).reachable[index]? = some false ↔
        ¬ code.Reachable index) := by
    intro index hlt
    rw [h.live]
    simp [hlt]
  have hlive : ∀ index, index < code.instructions.length →
      ((Context.mk code layout (some frames)).reachable[index]? = some true ↔
        code.Reachable index) := by
    intro index hlt
    rw [h.live]
    simp [hlt]
  constructor
  · intro hrun
    have hlt := hrun.lt
    have hle := hlength ▸ hrun.le
    refine ⟨hlt, hle, fun index hge hindex => ?_, fun index hindex => ?_, fun hmore => ?_⟩
    · exact (hdead index (by omega)).mp (hrun.dead index hge hindex)
    · exact (hlive index (by omega)).mp (hrun.before index hindex)
    · exact (hlive run.2 hmore).mp (hrun.behind (hlength ▸ hmore))
  · intro hrun
    have hlt := hrun.lt
    have hle := hrun.le
    refine ⟨hlt, hlength ▸ hle, fun index hge hindex => ?_, fun index hindex => ?_, fun hmore => ?_⟩
    · exact (hdead index (by omega)).mpr (hrun.unreached index hge hindex)
    · exact (hlive index (by omega)).mpr (hrun.before index hindex)
    · have hmore : run.2 < code.instructions.length := hlength ▸ hmore
      exact (hlive run.2 hmore).mpr (hrun.behind hmore)

/-- **The bytes of code with frames are those of its instructions**, but for those that cannot be
reached. -/
theorem Found.neutralised (h : Found code frames) {found : List (Option Label × CodeItem)}
    (hitems : items code.instructions pool = .ok (found, pool'))
    (hlayout : Layout.ofItems found code.lastLabel = .ok layout) :
    Neutralised code layout (Context.mk code layout (some frames)).bytes := by
  obtain ⟨hcount, hsize, _, hoffset, hbytes⟩ := Layout.ofItems_starts hlayout
  obtain ⟨hfound, hsome⟩ := items_ne_nil hitems
  have hchunks : layout.chunks.length = code.instructions.length := hcount.trans hfound
  have hlength : (Context.mk code layout (some frames)).reachable.length = layout.chunks.length := by
    show (frames.toList.map Option.isSome).length = _
    rw [List.length_map, Array.length_toList, h.size, hchunks]
  refine ⟨hchunks, ?_, fun index chunk hchunk => ?_, fun index chunk hchunk hreach => ?_,
    fun run hrun => ?_⟩
  · rw [Context.bytes, length_liveBytes, List.map_snd_zip hlength.ge, hsize, Nat.zero_add]
  · rw [hoffset]
    exact ⟨hbytes hsome chunk (List.mem_of_getElem? hchunk), hasAt_flatten hchunk⟩
  · rw [hoffset]
    have hlt := (List.getElem?_eq_some_iff.mp hchunk).1
    exact liveBytes_keeps hlength (h.live.mpr ⟨hchunks ▸ hlt, by simpa using hreach⟩) hchunk
  · obtain ⟨n, hn, hat⟩ := liveBytes_replaces hlength (h.run_iff.mpr hrun)
    have hless := length_take_lt (hbytes hsome) hrun.lt (hchunks ▸ hrun.le)
    obtain ⟨m, rfl⟩ : ∃ m, n = m + 1 := ⟨n - 1, by omega⟩
    rw [hoffset, hoffset]
    exact ⟨m, hn, hat⟩

/-- The offsets of code that cannot be reached are those of the runs that are found. -/
theorem Found.mem_deadOffsets (h : Found code frames) {part : Nat × Nat} :
    part ∈ (Context.mk code layout (some frames)).deadOffsets ↔
      ∃ run, code.UnreachedRun run ∧ part = (layout.offsetOf run.1, layout.offsetOf run.2) := by
  unfold Context.deadOffsets Context.dead
  rw [List.mem_map]
  constructor
  · intro hpart
    obtain ⟨run, hrun, rfl⟩ := hpart
    exact ⟨run, h.run_iff.mp (mem_deadRuns.mp hrun), rfl⟩
  · intro hpart
    obtain ⟨run, hrun, rfl⟩ := hpart
    exact ⟨run, mem_deadRuns.mpr (h.run_iff.mpr hrun), rfl⟩

/-- A part of code that cannot be reached does not end in front of its start. -/
theorem Found.deadOffsets_le (h : Found code frames) (hbody : Neutralised code layout body) :
    ∀ part ∈ (Context.mk code layout (some frames)).deadOffsets, part.1 ≤ part.2 := by
  intro part hpart
  obtain ⟨run, hrun, rfl⟩ := h.mem_deadOffsets.mp hpart
  obtain ⟨n, hn, _⟩ := hbody.replaced run hrun
  show layout.offsetOf run.1 ≤ layout.offsetOf run.2
  omega

/-- An offset is in none of these parts exactly if its instruction can be reached. -/
theorem Found.not_inRange_iff (h : Found code frames) (offset : Nat) :
    (∀ part ∈ (Context.mk code layout (some frames)).deadOffsets, ¬ InRange part offset) ↔
      ¬ code.Unreached layout offset := by
  constructor
  · intro hall hoffset
    obtain ⟨run, hrun, hin⟩ := hoffset
    exact hall _ (h.mem_deadOffsets.mpr ⟨run, hrun, rfl⟩) hin
  · intro hnot part hpart hin
    obtain ⟨run, hrun, rfl⟩ := h.mem_deadOffsets.mp hpart
    exact hnot ⟨run, hrun, hin⟩

/-- There are no such parts exactly if all instructions can be reached. -/
theorem Found.deadOffsets_eq_nil (h : Found code frames) :
    (Context.mk code layout (some frames)).deadOffsets = [] ↔
      ¬ ∃ run, code.UnreachedRun run := by
  rw [List.eq_nil_iff_forall_not_mem]
  constructor
  · intro hnone hrun
    obtain ⟨run, hrun⟩ := hrun
    exact hnone _ (h.mem_deadOffsets.mpr ⟨run, hrun, rfl⟩)
  · intro hno part hpart
    obtain ⟨run, hrun, _⟩ := h.mem_deadOffsets.mp hpart
    exact hno ⟨run, hrun⟩

/-- The offsets of a range, as numbers. -/
def rangeNumbers (range : UInt16 × UInt16) : Nat × Nat :=
  (range.1.toNat, range.2.toNat)

/-- Ranges with the same offsets are the same. -/
theorem rangeNumbers_injective : Function.Injective rangeNumbers := by
  intro a b hab
  obtain ⟨hfirst, hsecond⟩ := Prod.mk.inj hab
  exact Prod.ext (UInt16.toNat_inj.mp hfirst) (UInt16.toNat_inj.mp hsecond)

/-- What is left of a range has offsets of 16 bits, as the range has. -/
theorem exists_rangeNumbers {parts : List (Nat × Nat)} (hparts : ∀ part ∈ parts, part.1 ≤ part.2)
    (range : UInt16 × UInt16) :
    ∃ ranges : List (UInt16 × UInt16),
      subtractAll (rangeNumbers range) parts = ranges.map rangeNumbers := by
  obtain ⟨-, -, hwhole, hwithin⟩ := subtractAll_spec hparts
  have hsmall : ∀ r ∈ subtractAll (rangeNumbers range) parts, ∃ own, rangeNumbers own = r := by
    intro r hr
    by_cases hnone : parts = []
    · rw [hwhole hnone] at hr
      exact ⟨range, (List.mem_singleton.mp hr).symm⟩
    · obtain ⟨_, hle, hlt⟩ := hwithin r hr
      have hlt := hlt hnone
      have hbound := range.2.toNat_lt
      have hle : r.2 ≤ range.2.toNat := hle
      refine ⟨(r.1.toUInt16, r.2.toUInt16), Prod.ext ?_ ?_⟩
      · exact UInt16.toNat_ofNat_of_lt' (show r.1 < 65536 by omega)
      · exact UInt16.toNat_ofNat_of_lt' (show r.2 < 65536 by omega)
  have hmem : subtractAll (rangeNumbers range) parts ∈ Set.range (List.map rangeNumbers) := by
    rw [Set.range_list_map]
    exact hsmall
  obtain ⟨ranges, hranges⟩ := hmem
  exact ⟨ranges, hranges.symm⟩

/-- Without the code that cannot be reached, a range is left with the offsets that can be. -/
theorem Found.subtract_unreached (h : Found code frames) (hbody : Neutralised code layout body)
    (start stop : UInt16) :
    ∃ ranges : List (UInt16 × UInt16),
      subtractAll (start.toNat, stop.toNat)
          (Context.mk code layout (some frames)).deadOffsets =
        ranges.map (fun r => (r.1.toNat, r.2.toNat)) ∧
      (ranges.Pairwise fun a b => a.2 ≤ b.1) ∧
      (∀ offset : Nat, (∃ r ∈ ranges, r.1.toNat ≤ offset ∧ offset < r.2.toNat) ↔
        (start.toNat ≤ offset ∧ offset < stop.toNat) ∧ ¬ code.Unreached layout offset) ∧
      ((∃ run, code.UnreachedRun run) → ∀ r ∈ ranges, r.1 < r.2) ∧
      ((¬ ∃ run, code.UnreachedRun run) → ranges = [(start, stop)]) := by
  have hparts := h.deadOffsets_le hbody
  obtain ⟨ranges, hranges⟩ := exists_rangeNumbers hparts (start, stop)
  obtain ⟨horder, hcovers, hwhole, hwithin⟩ := subtractAll_spec hparts
  rw [hranges] at horder hcovers hwhole hwithin
  refine ⟨ranges, hranges, List.pairwise_map.mp horder, fun offset => ?_, fun hrun r hr => ?_,
    fun hno => ?_⟩
  · rw [← h.not_inRange_iff]
    refine Iff.trans ?_ (hcovers offset)
    simp only [List.mem_map, exists_exists_and_eq_and]
    exact Iff.rfl
  · have hsome : (Context.mk code layout (some frames)).deadOffsets ≠ [] := fun hnone =>
      h.deadOffsets_eq_nil.mp hnone hrun
    exact (hwithin _ (List.mem_map_of_mem hr)).2.2 hsome
  · exact List.map_injective_iff.mpr rangeNumbers_injective
      (hwhole (h.deadOffsets_eq_nil.mpr hno))

/-- **What is written of an exception range.** -/
theorem Found.rangeWritten (h : Found code frames) (hbody : Neutralised code layout body)
    {range : ExceptionRange} {entries : List Bytes}
    (hrun : Context.exceptionRanges ⟨code, layout, some frames⟩ range pool = .ok (entries, pool')) :
    RangeWritten code layout pool' range entries := by
  obtain ⟨start, _, hlift, hrun⟩ := work_bind_eq_ok.mp hrun
  obtain ⟨hstart, rfl⟩ := work_lift_eq_ok.mp hlift
  obtain ⟨stop, _, hlift, hrun⟩ := work_bind_eq_ok.mp hrun
  obtain ⟨hstop, rfl⟩ := work_lift_eq_ok.mp hlift
  obtain ⟨handler, _, hlift, hrun⟩ := work_bind_eq_ok.mp hrun
  obtain ⟨hhandler, rfl⟩ := work_lift_eq_ok.mp hlift
  obtain ⟨ranges, hranges, horder, hcovers, hsome, hwhole⟩ := h.subtract_unreached hbody start stop
  have hnone : ranges = [] ↔ (∃ run, code.UnreachedRun run) ∧
      ∀ offset : Nat, start.toNat ≤ offset → offset < stop.toNat →
        code.Unreached layout offset := by
    constructor
    · intro hnil
      subst hnil
      constructor
      · by_contra hno
        cases hwhole hno
      · intro offset hge hlt
        by_contra hnot
        obtain ⟨r, hr, _⟩ := (hcovers offset).mpr ⟨⟨hge, hlt⟩, hnot⟩
        cases hr
    · intro hall
      obtain ⟨hrun, hall⟩ := hall
      rw [List.eq_nil_iff_forall_not_mem]
      intro r hr
      have hlt : r.1.toNat < r.2.toNat := hsome hrun r hr
      obtain ⟨hin, hnot⟩ := (hcovers r.1.toNat).mp ⟨r, hr, le_refl _, hlt⟩
      exact hnot (hall _ hin.1 hin.2)
  rw [hranges, List.isEmpty_map] at hrun
  split at hrun
  next hempty =>
    obtain ⟨rfl, rfl⟩ := work_pure_eq_ok.mp hrun
    obtain rfl : ranges = [] := List.isEmpty_iff.mp hempty
    exact ⟨start, stop, handler, 0, [], hstart, hstop, hhandler, fun hne => absurd rfl hne, rfl,
      horder, hcovers, hsome, hwhole, (iff_of_true rfl rfl).trans hnone⟩
  next =>
    obtain ⟨caught, _, hcaught, hrun⟩ := work_bind_eq_ok.mp hrun
    obtain ⟨rfl, rfl⟩ := work_pure_eq_ok.mp hrun
    refine ⟨start, stop, handler, caught, ranges, hstart, hstop, hhandler,
      fun _ => PoolM.tellsCaught_optional hcaught, ?_, horder, hcovers, hsome, hwhole, ?_⟩
    · simp only [List.map_map, Function.comp_def, Nat.toUInt16_eq, UInt16.ofNat_toNat]
    · rw [List.map_eq_nil_iff, List.map_eq_nil_iff]
      exact hnone

/-- The parts of code that is written. -/
theorem codeBody_run (h : codeBody computeFrames code (some frames) pool = .ok (body, pool')) :
    ∃ found filled layout written exceptions attributes,
      items code.instructions pool = .ok (found, filled) ∧
      Layout.ofItems found code.lastLabel = .ok layout ∧
      code.exceptions.mapM (Context.exceptionRanges ⟨code, layout, some frames⟩) filled =
        .ok (written, exceptions) ∧
      exceptions.Within pool' ∧ written.flatten.length < 65536 ∧
      body = Bytes.ofU32 layout.size.toUInt32 ++ (Context.mk code layout (some frames)).bytes ++
        (Bytes.ofU16 written.flatten.length.toUInt16 ++ written.flatten.flatten) ++ attributes := by
  obtain ⟨found, filled, layout, indices, table, exceptions, parts, attributes, hitems, hlayout, -,
    htable, hparts, -, rfl⟩ := codeBody_eq_ok h
  obtain ⟨written, _, hwritten, htable⟩ := work_bind_eq_ok.mp htable
  obtain ⟨count, _, hlift, htable⟩ := work_bind_eq_ok.mp htable
  obtain ⟨hcount, rfl⟩ := work_lift_eq_ok.mp hlift
  obtain ⟨rfl, rfl⟩ := work_pure_eq_ok.mp htable
  have hsmall : written.flatten.length < 65536 ∧
      Bytes.ofU16 written.flatten.length.toUInt16 = count := by
    unfold count16 at hcount
    split at hcount
    next hsmall => exact ⟨hsmall, Except.ok.inj hcount⟩
    next => cases hcount
  obtain ⟨hsmall, rfl⟩ := hsmall
  exact ⟨found, filled, layout, written, _, attributes, hitems, hlayout, hwritten,
    PoolM.Enlarges.within hparts, hsmall, rfl⟩

/-- If an analysis of the code succeeds, what it finds is what the code is written with. -/
theorem analysis_of_found {maxLocals maxStack : UInt16} {known : Option (Array (Option Frame))}
    {found : Frame.Analysis}
    (hfound : Frame.analyze (if computeFrames then supers else SuperClasses.objectOnly σ) cls method
      code maxLocals state = (.ok found, between))
    (h : analysis supers computeFrames cls method code maxLocals state =
      (.ok (maxStack, known), state')) :
    maxStack = found.maxStack ∧ known = some found.frames := by
  unfold analysis at h
  cases computeFrames with
  | true =>
      obtain ⟨other, _, hother, h⟩ := task_bind_eq_ok.mp h
      cases hfound.symm.trans (task_within_eq_ok.mp hother)
      cases (task_pure_eq_ok.mp h).1
      exact ⟨rfl, rfl⟩
  | false =>
      have hfound : Frame.analyze (SuperClasses.objectOnly σ) cls method code maxLocals state =
          (.ok found, between) := hfound
      simp only [hfound, Bool.false_eq_true, if_false] at h
      cases h
      exact ⟨rfl, rfl⟩

/-- **Exactly the code that cannot be reached is replaced.**  If an analysis of a method's code
succeeds and the code is written, then the analysis finds frames for exactly the instructions that
execution can reach.  The bytes of these stay where they are.  Every run of others is filled up, and
taken out of the ranges of exceptions, and then the stack has room for what is thrown there. -/
theorem code_neutralised {locals : UInt16} {found : Frame.Analysis} {bytes : Bytes}
    (hlocals : maxLocals method code = .ok locals)
    (hfound : Frame.analyze (if computeFrames then supers else SuperClasses.objectOnly σ) cls method
      code locals state = (.ok found, between))
    (h : Encode.code supers computeFrames cls method code pool state =
      (.ok (bytes, pool'), state')) :
    (∀ index, (∃ frame, found.frames[index]? = some (some frame)) ↔ code.Reachable index) ∧
      ((∃ run, code.UnreachedRun run) → 1 ≤ found.maxStack.toNat) ∧
      ∃ placed filled layout body entries attributes,
        items code.instructions pool = .ok (placed, filled) ∧
        Layout.ofItems placed code.lastLabel = .ok layout ∧
        bytes = Bytes.ofU16 found.maxStack ++ Bytes.ofU16 locals ++
          (Bytes.ofU32 layout.size.toUInt32 ++ body ++
            (Bytes.ofU16 entries.flatten.length.toUInt16 ++ entries.flatten.flatten) ++
            attributes) ∧
        layout.size < 65536 ∧ entries.flatten.length < 65536 ∧
        Neutralised code layout body ∧
        List.Forall₂ (RangeWritten code layout pool') code.exceptions entries := by
  obtain ⟨_, maxStack, known, body, hlocals', hanalysis, hbody, rfl⟩ := code_run.mp h
  cases hlocals.symm.trans hlocals'
  obtain ⟨rfl, rfl⟩ := analysis_of_found hfound hanalysis
  obtain ⟨hreachable, hroom⟩ := Frame.analyze_reachable hfound
  have hframes : Found code found.frames := ⟨Frame.analyze_size hfound, hreachable⟩
  obtain ⟨placed, filled, layout, entries, exceptions, attributes, hitems, hlayout, hentries,
    hwithin, hcount, rfl⟩ := codeBody_run hbody
  have hneutral := hframes.neutralised hitems hlayout
  refine ⟨hreachable, fun hrun => ?_, placed, filled, layout, _, entries, attributes, hitems,
    hlayout, rfl, (Layout.ofItems_starts hlayout).2.2.1, hcount, hneutral, ?_⟩
  · obtain ⟨run, hrun⟩ := hrun
    exact hroom run.1 (hrun.lt.trans_le hrun.le) (hrun.unreached run.1 (le_refl _) hrun.lt)
  · refine (work_mapM_quiet (fun pool => pool.Within pool') (RangeWritten code layout pool')
      (fun range _ _ written _ hrange hpool => ?_) hentries hwithin).2
    exact ⟨(PoolM.Enlarges.within hrange).trans hpool,
      (hframes.rangeWritten hneutral hrange).mono hpool⟩

end Written

section Example

open Downlevel.Frame Downlevel.Task

/-- Code that returns at once.  What stands behind is the handler of what it throws, with an instruction
in front of it that cannot be reached. -/
def skippingCode : Code where
  instructions := [⟨some ⟨0⟩, .op .returnVoid⟩, ⟨none, .op .returnVoid⟩, ⟨some ⟨1⟩, .op .athrow⟩]
  exceptions := [⟨⟨0⟩, ⟨1⟩, ⟨1⟩, none⟩]

/-- A method with that code. -/
def skippingMethod : Method where
  access := { isStatic := true }
  name := "f"
  descriptor := "()V"
  code := some skippingCode

/-- The frames of the code. -/
def skippingFrames : Array (Option Frame) :=
  #[some ⟨[], []⟩, none, some ⟨[], [.object ClassName.javaThrowable]⟩]

/-- There is a frame for the handler, but none for what is in front of it. -/
theorem analyze_skippingCode :
    maxLocals skippingMethod skippingCode = .ok 0 ∧
      analyze (SuperClasses.objectOnly Unit) "a/A" skippingMethod skippingCode 0 () =
        (.ok ⟨skippingFrames, 1⟩, ()) := by
  let supers := SuperClasses.objectOnly Unit
  let handler : Handler := ⟨0, 2, 2, .object ClassName.javaThrowable⟩
  let subject : Subject := ⟨"a/A", (skippingCode.instructions.map Labelled.instruction).toArray,
    skippingCode.labelIndices, [handler]⟩
  let thrown : Frame := ⟨[], [.object ClassName.javaThrowable]⟩
  have hsuccessors : successors 3 subject.places 0 (.op .returnVoid) = .ok [] ∧
      successors 3 subject.places 2 (.op .athrow) = .ok [] := by
    cbv
  obtain ⟨hreturn, hthrow⟩ := hsuccessors
  have hfirst : visit supers subject 0
      ⟨#[some ⟨[], []⟩, none, none], [], [], #[false, false, false], 0⟩ () =
      (.ok ⟨#[some ⟨[], []⟩, none, some thrown], [], [2], #[false, false, true], 1⟩, ()) :=
    visit_run rfl rfl rfl hreturn rfl rfl
  have hsecond : visit supers subject 2
      ⟨#[some ⟨[], []⟩, none, some thrown], [], [], #[false, false, false], 1⟩ () =
      (.ok ⟨#[some ⟨[], []⟩, none, some thrown], [], [], #[false, false, false], 1⟩, ()) :=
    visit_run rfl rfl rfl hthrow rfl rfl
  have hsettle : settle supers subject iterationLimit
      ⟨#[some ⟨[], []⟩, none, none], [0], [], #[true, false, false], 0⟩ () =
      (.ok ⟨#[some ⟨[], []⟩, none, some thrown], [], [], #[false, false, false], 1⟩, ()) :=
    settle_run rfl hfirst (settle_run rfl hsecond rfl)
  have hparse : MethodType.parse skippingMethod.descriptor = .ok ⟨[], none⟩ := by cbv
  have hhandlers : handlersOf skippingCode.labelIndices skippingCode.exceptions = .ok [handler] := by
    cbv
  refine ⟨by cbv, ?_⟩
  unfold analyze
  rw [if_neg (by decide)]
  refine task_bind_eq_ok.mpr ⟨[handler], (), task_lift_eq_ok.mpr ⟨hhandlers, rfl⟩, ?_⟩
  refine task_bind_eq_ok.mpr ⟨_, (), task_lift_eq_ok.mpr ⟨hparse, rfl⟩, ?_⟩
  refine task_bind_eq_ok.mpr ⟨⟨[], []⟩, (), rfl, ?_⟩
  refine task_bind_eq_ok.mpr ⟨_, (), hsettle, ?_⟩
  exact task_lift_eq_ok.mpr ⟨by simp [conclude, thrown, skippingFrames], rfl⟩

/-- How the code is laid out. -/
def skippingLayout : Layout :=
  ⟨[[0xb1], [0xb1], [0xbf]], #[0, 1, 2], Std.HashMap.insert (Std.HashMap.insert ∅ ⟨0⟩ 0) ⟨1⟩ 2, 3, ∅⟩

/-- The code, laid out, with its frames. -/
def skippingContext : Context :=
  ⟨skippingCode, skippingLayout, some skippingFrames⟩

/-- The handler needs a frame, and so does what is in front of it. -/
theorem frameIndices_skippingContext : skippingContext.frameIndices = .ok [1, 2] := by
  have hlive : skippingContext.framesFrom skippingCode.labelIndices 3 0 []
      (skippingContext.reachable.zip skippingCode.instructions) = .ok [1] := rfl
  have hhandlers : skippingCode.exceptions.mapM
      (fun e => Frame.placeOf skippingCode.labelIndices e.handler) = .ok [2] := by
    cbv
  have hsorted : Frame.sortedSet [1, 1, 2, 2] = [1, 2] := by
    rw [Frame.sortedSet, List.mergeSort_of_pairwise (by simp)]
    rfl
  refine bind_eq_ok.mpr ⟨[1], hlive, bind_eq_ok.mpr ⟨[2], hhandlers, ?_⟩⟩
  show Except.ok (Frame.sortedSet [1, 1, 2, 2]) = _
  rw [hsorted]

/-- The exception is caught in the first instruction. -/
theorem exceptionTable_skippingContext : skippingContext.exceptionTable {} =
    .ok ([0x00, 0x01, 0x00, 0x00, 0x00, 0x01, 0x00, 0x02, 0x00, 0x00], {}) := by
  have hlabels : skippingLayout.offsetOfLabel ⟨0⟩ = .ok 0 ∧
      skippingLayout.offsetOfLabel ⟨1⟩ = .ok 2 := by
    cbv
    exact ⟨rfl, rfl⟩
  obtain ⟨hstart, hstop⟩ := hlabels
  have hrange : skippingContext.exceptionRanges ⟨⟨0⟩, ⟨1⟩, ⟨1⟩, none⟩ {} =
      .ok ([[0x00, 0x00, 0x00, 0x01, 0x00, 0x02, 0x00, 0x00]], {}) := by
    refine work_bind_eq_ok.mpr ⟨0, _, work_lift_eq_ok.mpr ⟨hstart, rfl⟩, ?_⟩
    refine work_bind_eq_ok.mpr ⟨2, _, work_lift_eq_ok.mpr ⟨hstop, rfl⟩, ?_⟩
    refine work_bind_eq_ok.mpr ⟨2, _, work_lift_eq_ok.mpr ⟨hstop, rfl⟩, ?_⟩
    have hleft : subtractAll ((0 : UInt16).toNat, (2 : UInt16).toNat) skippingContext.deadOffsets =
        [(0, 1)] := by
      decide
    rw [hleft]
    rfl
  refine work_bind_eq_ok.mpr ⟨[[[0x00, 0x00, 0x00, 0x01, 0x00, 0x02, 0x00, 0x00]]], _, ?_, rfl⟩
  exact work_bind_eq_ok.mpr ⟨_, _, hrange, rfl⟩

/-- The first instruction and the handler are kept.  What else is written depends on the attributes. -/
theorem codeBody_skippingCode {computeFrames : Bool} {attributes : List Bytes}
    {pool : Pool.Builder} {rest : Bytes}
    (hattributes : present (skippingContext.attributes computeFrames [1, 2]) {} =
      .ok (attributes, pool))
    (hrest : counted "code" attributes = .ok rest) :
    codeBody computeFrames skippingCode (some skippingFrames) {} =
      .ok ([0x00, 0x00, 0x00, 0x03, 0xb1, 0xbf, 0xbf, 0x00, 0x01, 0x00, 0x00, 0x00, 0x01, 0x00, 0x02,
        0x00, 0x00] ++ rest, pool) := by
  have hitems : items skippingCode.instructions {} =
      .ok ([(some ⟨0⟩, .plain [0xb1]), (none, .plain [0xb1]), (some ⟨1⟩, .plain [0xbf])], {}) := rfl
  have hlayout : Layout.ofItems [(some ⟨0⟩, .plain [0xb1]), (none, .plain [0xb1]),
      (some ⟨1⟩, .plain [0xbf])] none = .ok skippingLayout := rfl
  refine work_bind_eq_ok.mpr ⟨_, _, hitems, ?_⟩
  refine work_bind_eq_ok.mpr ⟨_, _, work_lift_eq_ok.mpr ⟨hlayout, rfl⟩, ?_⟩
  rw [if_neg (by decide)]
  refine work_bind_eq_ok.mpr ⟨_, _, work_lift_eq_ok.mpr ⟨frameIndices_skippingContext, rfl⟩, ?_⟩
  refine work_bind_eq_ok.mpr ⟨_, _, exceptionTable_skippingContext, ?_⟩
  refine work_bind_eq_ok.mpr ⟨_, _, hattributes, ?_⟩
  exact work_bind_eq_ok.mpr ⟨_, _, work_lift_eq_ok.mpr ⟨hrest, rfl⟩, rfl⟩

/-- The exception is caught in the first instruction, in front of its handler. -/
theorem code_skippingCode :
    Encode.code (SuperClasses.objectOnly Unit) false "a/A" skippingMethod skippingCode {} () =
      (.ok ([0x00, 0x01, 0x00, 0x00, 0x00, 0x00, 0x00, 0x03, 0xb1, 0xbf, 0xbf, 0x00, 0x01, 0x00, 0x00,
        0x00, 0x01, 0x00, 0x02, 0x00, 0x00, 0x00, 0x00], {}), ()) := by
  obtain ⟨hlocals, hanalyze⟩ := analyze_skippingCode
  have hanalysis : analysis (SuperClasses.objectOnly Unit) false "a/A" skippingMethod skippingCode 0
      () = (.ok (1, some skippingFrames), ()) := by
    unfold analysis
    simp only [Bool.false_eq_true, if_false, hanalyze]
  exact code_run.mpr ⟨0, 1, _, _, hlocals, hanalysis, codeBody_skippingCode rfl rfl, rfl⟩

/-- In that code the handler can be reached, but not the instruction in front of it. -/
theorem code_neutralised_skipping :
    (maxLocals skippingMethod skippingCode = .ok 0 ∧
      analyze (SuperClasses.objectOnly Unit) "a/A" skippingMethod skippingCode 0 () =
        (.ok ⟨skippingFrames, 1⟩, ()) ∧
      Encode.code (SuperClasses.objectOnly Unit) false "a/A" skippingMethod skippingCode {} () =
        (.ok ([0x00, 0x01, 0x00, 0x00, 0x00, 0x00, 0x00, 0x03, 0xb1, 0xbf, 0xbf, 0x00, 0x01, 0x00,
          0x00, 0x00, 0x01, 0x00, 0x02, 0x00, 0x00, 0x00, 0x00], {}), ())) ∧
      skippingCode.Reachable 2 ∧ ¬ skippingCode.Reachable 1 := by
  obtain ⟨hlocals, hanalyze⟩ := analyze_skippingCode
  refine ⟨⟨hlocals, hanalyze, code_skippingCode⟩, ?_⟩
  have hfound : analyze (if (false : Bool) then SuperClasses.objectOnly Unit
      else SuperClasses.objectOnly Unit) "a/A" skippingMethod skippingCode 0 () =
        (.ok ⟨skippingFrames, 1⟩, ()) := hanalyze
  obtain ⟨hreachable, _⟩ := code_neutralised hlocals hfound code_skippingCode
  constructor
  · exact (hreachable 2).mp ⟨⟨[], [.object ClassName.javaThrowable]⟩, rfl⟩
  · intro hreach
    obtain ⟨frame, hframe⟩ := (hreachable 1).mpr hreach
    cases hframe

end Example

end Encode

end Downlevel
