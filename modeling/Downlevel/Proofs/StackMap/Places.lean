import Downlevel.Proofs.Attempts
import Downlevel.Proofs.Unreached

/-!
# Where frames are listed

Frames are listed for some instructions only: for those that execution reaches otherwise than from the
instruction in front, and for those where code starts or ends that cannot be reached.  They are listed
in the order of the instructions, by the offsets where these start.

* `Frame.pairwise_sortedSet` — a sorted set is in strict order;
* `Layout.labels_ofItems` — labels are placed where the instructions start that they stand on;
* `Layout.chunk_of_item` — the bytes of an instruction, and how many there are;
* `Encode.frameIndices_spec` — which instructions have frames.
-/

namespace Downlevel

/-- An instruction that cannot be reached is in a run of such instructions. -/
theorem Code.exists_unreachedRun {code : Code} {index : Nat} (hlt : index < code.instructions.length)
    (hunreached : ¬ code.Reachable index) :
    ∃ run, code.UnreachedRun run ∧ run.1 ≤ index ∧ index < run.2 := by
  classical
  have hfirst : ∃ first, ∀ other, first ≤ other → other ≤ index → ¬ code.Reachable other := by
    refine ⟨index, fun other hge hle => ?_⟩
    obtain rfl := Nat.le_antisymm hge hle
    exact hunreached
  have hstop : ∃ stop, index < stop ∧ (code.instructions.length ≤ stop ∨ code.Reachable stop) :=
    ⟨code.instructions.length, hlt, .inl (Nat.le_refl _)⟩
  have hbegins : Nat.find hfirst ≤ index := Nat.find_min' hfirst fun other hge hle => by
    obtain rfl := Nat.le_antisymm hge hle
    exact hunreached
  obtain ⟨hbehind, hends⟩ := Nat.find_spec hstop
  refine ⟨(Nat.find hfirst, Nat.find hstop), ⟨hbegins.trans_lt hbehind,
    Nat.find_min' hstop ⟨hlt, .inl (Nat.le_refl _)⟩, fun other hge hless => ?_,
    fun before hbefore => ?_, fun hmore => hends.resolve_left (Nat.not_le_of_lt hmore)⟩, hbegins,
    hbehind⟩
  · by_cases hle : other ≤ index
    · exact Nat.find_spec hfirst other hge hle
    · intro hreach
      exact Nat.find_min hstop hless ⟨Nat.lt_of_not_le hle, .inr hreach⟩
  · -- the run would start earlier otherwise
    by_contra hnot
    refine Nat.find_min hfirst (show before < Nat.find hfirst by omega) fun other hge hle => ?_
    by_cases hsame : other = before
    · exact hsame ▸ hnot
    · exact Nat.find_spec hfirst other (by omega) hle

namespace Frame

/-- Leaving out repetitions, from an item on, makes an order strict. -/
theorem pairwise_eraseRepsBy_loop {first : Nat} {rest done : List Nat}
    (hrest : (first :: rest).Pairwise (· ≤ ·)) (hdone : done.Pairwise (· > ·))
    (hbelow : ∀ index ∈ done, index < first) :
    (List.eraseRepsBy.loop (fun a b => a == b) first rest done).Pairwise (· < ·) := by
  have hall : (first :: done).Pairwise (· > ·) := List.pairwise_cons.mpr ⟨hbelow, hdone⟩
  induction rest generalizing first done with
  | nil => exact List.pairwise_reverse.mpr hall
  | cons next rest ih =>
      obtain ⟨hfirst, hothers⟩ := List.pairwise_cons.mp hrest
      unfold List.eraseRepsBy.loop
      split
      next heq =>
        have hsame : first = next := beq_iff_eq.mp heq
        subst hsame
        exact ih hothers hdone hbelow hall
      next hne =>
        have hless : first < next :=
          Nat.lt_of_le_of_ne (hfirst next List.mem_cons_self) fun heq => by simp [heq] at hne
        have hbehind : ∀ index ∈ first :: done, index < next :=
          List.forall_mem_cons.mpr ⟨hless, fun index hmem => (hbelow index hmem).trans hless⟩
        exact ih hothers hall hbehind (List.pairwise_cons.mpr ⟨hbehind, hall⟩)

/-- **A sorted set is in strict order.** -/
theorem pairwise_sortedSet (indices : List Nat) : (sortedSet indices).Pairwise (· < ·) := by
  have hsorted : indices.mergeSort.Pairwise (· ≤ ·) := by
    refine (List.pairwise_mergeSort (fun a b c hab hbc => ?_) (fun a b => ?_) indices).imp
      of_decide_eq_true
    · exact decide_eq_true ((of_decide_eq_true hab).trans (of_decide_eq_true hbc))
    · simpa using Nat.le_total a b
  unfold sortedSet
  cases hlist : indices.mergeSort with
  | nil => exact .nil
  | cons first rest =>
      rw [hlist] at hsorted
      exact pairwise_eraseRepsBy_loop hsorted .nil (by simp)

end Frame

namespace Layout

open Std (HashMap HashSet)

variable {items : List (Option Label × CodeItem)} {lastLabel : Option Label} {wide : HashSet Nat}

/-- Labels are placed where the instructions that they stand on start, if those before are. -/
theorem addAll_labels {entries : List Labelled} {placement placement' : Placement}
    (h : Placement.addAll wide items placement = .ok placement')
    (hitems : List.Forall₂ (fun entry item => item.1 = entry.label) entries items)
    {found : HashMap Label Nat × Nat} (hfound : found.2 = placement.offsets.size)
    {offset : Nat → Nat}
    (hoffset : ∀ index start : Nat, placement'.offsets[index]? = some start → offset index = start)
    (hlabels : ∀ label : Label, placement.labels[label]? = found.1[label]?.map offset) :
    (entries.foldl Code.noteLabel found).2 = placement'.offsets.size ∧
      ∀ label : Label, placement'.labels[label]? =
        (entries.foldl Code.noteLabel found).1[label]?.map offset := by
  induction hitems generalizing placement found with
  | nil =>
      cases h
      exact ⟨hfound, hlabels⟩
  | @cons entry item entries items hlabel _ ih =>
      obtain ⟨label, item⟩ := item
      obtain rfl : label = entry.label := hlabel
      obtain ⟨_, _, hrest⟩ := bind_eq_ok.mp h
      obtain ⟨_, starts, _, hstarts, _⟩ := addAll_starts hrest
      have hpush : (placement.add (wide.contains placement.offsets.size) entry.label
          item).offsets = placement.offsets.push placement.size := rfl
      have hhere : offset placement.offsets.size = placement.size := by
        refine hoffset _ _ ?_
        rw [← Array.getElem?_toList, hstarts, hpush, Array.toList_push, List.append_assoc,
          List.getElem?_append_right (Nat.le_of_eq Array.length_toList), Array.length_toList,
          Nat.sub_self]
        rfl
      rw [List.foldl_cons]
      refine ih hrest ?_ fun other => ?_
      · rw [hpush, Array.size_push, ← hfound]
        unfold Code.noteLabel
        split <;> rfl
      · unfold Placement.add Code.noteLabel
        cases hown : entry.label with
        | none => exact hlabels other
        | some own =>
            show (placement.labels.insert own placement.size)[other]? =
              (found.1.insert own found.2)[other]?.map offset
            rw [HashMap.getElem?_insert, HashMap.getElem?_insert, hfound]
            split
            next => rw [Option.map_some, hhere]
            next => exact hlabels other

/-- **A label is placed where the instruction starts that it stands on**, by the table of places and by
the layout alike. -/
theorem labels_ofItems {code : Code} {layout : Layout}
    (h : ofItems items code.lastLabel = .ok layout)
    (hitems : List.Forall₂ (fun entry item => item.1 = entry.label) code.instructions items)
    (label : Label) : layout.labels[label]? = code.labelIndices[label]?.map layout.offsetOf := by
  obtain ⟨lastLabel, hlast⟩ : ∃ lastLabel, code.lastLabel = lastLabel := ⟨_, rfl⟩
  rw [hlast] at h
  obtain ⟨placement, hplace, _, hlabels, hoffsets, hsize⟩ := settle_eq_ok h
  obtain ⟨before, hbefore, _, _, hoffsets', hsize', hlabels'⟩ := place_eq_ok hplace
  have hoffset : ∀ index start : Nat, before.offsets[index]? = some start →
      layout.offsetOf index = start := by
    intro index start hstart
    unfold offsetOf
    rw [hoffsets, hoffsets', hstart, Option.getD_some]
  obtain ⟨hcount, hall⟩ := addAll_labels hbefore hitems
    (rfl : ((∅ : HashMap Label Nat), 0).2 = 0) hoffset fun other => by simp
  have hend : layout.offsetOf before.offsets.size = before.size := by
    unfold offsetOf
    rw [hoffsets, hoffsets', Array.getElem?_eq_none (Nat.le_refl _), Option.getD_none, hsize, hsize']
  rw [hlabels, hlabels', Code.labelIndices_eq, hlast]
  cases lastLabel with
  | none => exact hall label
  | some last =>
      show (before.labels.insert last before.size)[label]? =
        ((code.instructions.foldl Code.noteLabel (∅, 0)).1.insert last
          (code.instructions.foldl Code.noteLabel (∅, 0)).2)[label]?.map layout.offsetOf
      rw [HashMap.getElem?_insert, HashMap.getElem?_insert, hcount]
      split
      next => rw [Option.map_some, hend]
      next => exact hall label

/-- Instructions start within the code, or where it ends. -/
theorem offsetOf_lt {layout : Layout} (h : ofItems items lastLabel = .ok layout) (index : Nat) :
    layout.offsetOf index < 65536 := by
  obtain ⟨_, hsize, hsmall, hoffset, _⟩ := ofItems_starts h
  rw [hoffset]
  have hle : (layout.chunks.take index).flatten.length ≤ layout.chunks.flatten.length := by
    have hsplit := congrArg (fun chunks : List Bytes => chunks.flatten.length)
      (List.take_append_drop index layout.chunks)
    simp only [List.flatten_append, List.length_append] at hsplit
    omega
  omega

/-- Instructions start one behind the other. -/
theorem offsetOf_strict {layout : Layout} (h : ofItems items lastLabel = .ok layout)
    (hitems : ∀ item ∈ items, item.2 ≠ .plain []) {i j : Nat} (hlt : i < j)
    (hle : j ≤ items.length) : layout.offsetOf i < layout.offsetOf j := by
  obtain ⟨hcount, _, _, hoffset, hbytes⟩ := ofItems_starts h
  rw [hoffset, hoffset]
  exact length_take_lt (hbytes hitems) hlt (hcount ▸ hle)

/-- **The bytes of an instruction are those of its parts**, with the distances in them filled in. -/
theorem chunk_of_item {layout : Layout} (h : ofItems items lastLabel = .ok layout) {index : Nat}
    {label : Option Label} {item : CodeItem} (hitem : items[index]? = some (label, item))
    {chunk : Bytes} (hchunk : layout.chunks[index]? = some chunk) : ∃ known start,
      FilledIn layout.labels (partsOf known start (layout.wide.contains index) item) chunk := by
  obtain ⟨placement, hplace, hfilled, hlabels, _⟩ := settle_eq_ok h
  obtain ⟨before, hbefore, _, hplaced, _⟩ := place_eq_ok hplace
  obtain ⟨parts, hparts, _, hown⟩ := addAll_parts hbefore
  obtain ⟨chunks, hchunks, hall⟩ := fillAll_eq_inl hfilled
  rw [List.reverse_nil, List.nil_append] at hchunks
  rw [hplaced, hparts, List.append_nil, List.reverse_reverse, ← hchunks] at hall
  obtain ⟨hlt, rfl⟩ := List.getElem?_eq_some_iff.mp hchunk
  have hlt' : index < parts.length := hall.length_eq ▸ hlt
  obtain ⟨_, _, known, start, hitem', _, hpart⟩ :=
    hown index parts[index] (List.getElem?_eq_getElem hlt')
  cases hitem.symm.trans hitem'
  have hbytes := hall.get hlt' hlt
  rw [List.get_eq_getElem, List.get_eq_getElem, hpart] at hbytes
  have hempty : ({} : Placement).offsets.size + index = index := Nat.zero_add index
  rw [hempty, ← hlabels] at hbytes
  exact ⟨known, start, hbytes⟩

/-- An instruction that does not jump has its bytes. -/
theorem FilledIn.plain {labels known : HashMap Label Nat} {start : Nat} {isWide : Bool}
    {bytes chunk : Bytes} (h : FilledIn labels (partsOf known start isWide (.plain bytes)) chunk) :
    chunk = bytes := by
  obtain ⟨pieces, hpieces, rfl⟩ := h
  cases hpieces with
  | @cons _ piece _ pieces hpiece hrest =>
      cases hrest
      obtain rfl : piece = bytes := hpiece
      exact List.flatten_singleton

/-- An instruction takes as many bytes as there is room for. -/
theorem FilledIn.length_eq {labels known : HashMap Label Nat} {start : Nat} {isWide : Bool}
    {item : CodeItem} {chunk : Bytes} (h : FilledIn labels (partsOf known start isWide item) chunk) :
    chunk.length = item.room known start isWide := by
  obtain ⟨pieces, hpieces, rfl⟩ := h
  have hsize := foldl_size hpieces 0
  rw [foldl_size_partsOf, Nat.zero_add] at hsize
  exact hsize.symm

end Layout

namespace Encode

open Parse Pool

/-- What is written for an instruction has its place among what is written. -/
theorem items_getElem? {instructions : List Labelled} {found : List (Option Label × CodeItem)}
    {pool pool' : Builder} (h : items instructions pool = .ok (found, pool')) {index : Nat}
    {entry : Labelled} (hentry : instructions[index]? = some entry) :
    ∃ written, found[index]? = some written ∧ Item entry written := by
  have hall := items_forall₂ h
  obtain ⟨hlt, rfl⟩ := List.getElem?_eq_some_iff.mp hentry
  have hlt' : index < found.length := hall.length_eq ▸ hlt
  exact ⟨found[index], List.getElem?_eq_getElem hlt', hall.get hlt hlt'⟩

/-! ## Which instructions need a frame -/

section Needed

variable {context : Context} {places : Std.HashMap Label Nat} {length : Nat}

/-- The instructions that need a frame because of one. -/
theorem mem_framesAfter {index : Nat} {instruction : Instruction} {needed : List Nat}
    (h : context.framesAfter places length index instruction = .ok needed) :
    (∀ label ∈ instruction.targets, ∃ target ∈ needed, places[label]? = some target) ∧
      (instruction.isUnconditional = true ∨
          (∃ condition target, instruction = .branch condition target) ∧
            context.layout.wide.contains index = true →
        index + 1 < length → index + 1 ∈ needed) := by
  obtain ⟨targets, htargets, h⟩ := bind_eq_ok.mp h
  have hjumps : ∀ label ∈ instruction.targets, ∃ target ∈ targets, places[label]? = some target := by
    intro label hlabel
    obtain ⟨target, htarget, hplace⟩ := exists_right_of_forall₂ (mapM_eq_ok_forall₂ htargets) hlabel
    exact ⟨target, htarget, orFail_eq_ok.mp hplace⟩
  have hafter (flag : Bool) (h : (if (flag && decide (index + 1 < length)) = true then
      pure (targets ++ [index + 1]) else pure targets : Except Error (List Nat)) = .ok needed) :
      (∀ target ∈ targets, target ∈ needed) ∧
        (flag = true → index + 1 < length → index + 1 ∈ needed) := by
    split at h
    next =>
      cases pure_eq_ok.mp h
      exact ⟨fun _ hmem => List.mem_append_left _ hmem,
        fun _ _ => List.mem_append_right _ (List.mem_singleton.mpr rfl)⟩
    next hnone =>
      cases pure_eq_ok.mp h
      exact ⟨fun _ hmem => hmem, fun hflag hmore => absurd (by simp [hflag, hmore]) hnone⟩
  obtain ⟨hkept, hnext⟩ := hafter _ h
  refine ⟨fun label hlabel => ?_, fun hneeds => hnext ?_⟩
  · obtain ⟨target, htarget, hplace⟩ := hjumps label hlabel
    exact ⟨target, hkept target htarget, hplace⟩
  · rcases hneeds with hflag | ⟨⟨condition, target, rfl⟩, hwide⟩
    · rw [hflag, Bool.true_or]
    · exact (Bool.or_eq_true _ _).mpr (.inr hwide)

/-- The instructions that need a frame because of several. -/
theorem mem_framesFrom {start : Nat} {done found : List Nat} {pairs : List (Bool × Labelled)}
    (h : context.framesFrom places length start done pairs = .ok found) :
    (∀ index ∈ done, index ∈ found) ∧
      ∀ (n : Nat) (entry : Labelled), pairs[n]? = some (true, entry) → ∃ needed,
        context.framesAfter places length (start + n) entry.instruction = .ok needed ∧
          ∀ index ∈ needed, index ∈ found := by
  induction pairs generalizing start done with
  | nil =>
      cases h
      exact ⟨fun _ hmem => hmem, fun n entry hentry => by cases hentry⟩
  | cons pair rest ih =>
      obtain ⟨live, first⟩ := pair
      have hlater {n : Nat} : start + 1 + n = start + (n + 1) := by omega
      cases live with
      | false =>
          obtain ⟨hdone, hneeded⟩ := ih h
          refine ⟨hdone, fun n entry hentry => ?_⟩
          cases n with
          | zero => cases hentry
          | succ n => exact hlater ▸ hneeded n entry hentry
      | true =>
          obtain ⟨needed, hfirst, h⟩ := bind_eq_ok.mp h
          obtain ⟨hdone, hneeded⟩ := ih h
          refine ⟨fun index hmem => hdone index (List.mem_append_right _ hmem), fun n entry hentry => ?_⟩
          cases n with
          | zero =>
              cases hentry
              exact ⟨needed, hfirst, fun index hmem => hdone index (List.mem_append_left _ hmem)⟩
          | succ n => exact hlater ▸ hneeded n entry hentry

/-- **The instructions that need a frame**, in strict order. -/
theorem frameIndices_spec {frames : Array (Option Frame)} {indices : List Nat}
    (hframes : context.frames = some frames) (h : context.frameIndices = .ok indices) :
    indices.Pairwise (· < ·) ∧
      (∀ index entry, (context.reachable.zip context.code.instructions)[index]? = some (true, entry) →
        ∃ needed, context.framesAfter context.code.labelIndices context.code.instructions.length index
          entry.instruction = .ok needed ∧ ∀ target ∈ needed, target ∈ indices) ∧
      (∀ run ∈ context.dead, run.1 ∈ indices ∧
        (run.2 < context.code.instructions.length → run.2 ∈ indices)) ∧
      ∀ range ∈ context.code.exceptions, ∃ handler ∈ indices,
        context.code.labelIndices[range.handler]? = some handler := by
  unfold Context.frameIndices at h
  rw [hframes] at h
  obtain ⟨live, hlive, h⟩ := bind_eq_ok.mp h
  obtain ⟨handlers, hhandlers, h⟩ := bind_eq_ok.mp h
  cases pure_eq_ok.mp h
  have hmem {index : Nat} (dead : List Nat)
      (hin : index ∈ live ∨ index ∈ dead ∨ index ∈ handlers) :
      index ∈ Frame.sortedSet (live ++ dead ++ handlers) := by
    rw [Frame.mem_sortedSet, List.mem_append, List.mem_append]
    tauto
  refine ⟨Frame.pairwise_sortedSet _, fun index entry hentry => ?_, fun run hrun => ?_,
    fun range hrange => ?_⟩
  · obtain ⟨needed, hneeded, hall⟩ := (mem_framesFrom hlive).2 index entry hentry
    rw [Nat.zero_add] at hneeded
    exact ⟨needed, hneeded, fun target htarget => hmem _ (.inl (hall target htarget))⟩
  · constructor
    · refine hmem _ (.inr (.inl (List.mem_flatMap.mpr ⟨run, hrun, ?_⟩)))
      split <;> exact List.mem_cons_self
    · intro hmore
      refine hmem _ (.inr (.inl (List.mem_flatMap.mpr ⟨run, hrun, ?_⟩)))
      rw [if_pos hmore]
      exact List.mem_cons_of_mem _ List.mem_cons_self
  · obtain ⟨handler, hhandler, hplace⟩ :=
      exists_right_of_forall₂ (mapM_eq_ok_forall₂ hhandlers) hrange
    exact ⟨handler, hmem _ (.inr (.inr hhandler)), orFail_eq_ok.mp hplace⟩

end Needed

end Encode

end Downlevel
