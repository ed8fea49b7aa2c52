import Downlevel.Proofs.Layout
import Downlevel.Proofs.Renaming.Frames

/-!
# The layout of code with other labels

Where instructions are placed depends on where the targets of jumps are, and not on how they are
called.  So instructions with other labels, one for each, are placed alike: at the same offsets,
with the same bytes, and with the labels at the same places.

* `Layout.partsOf_mapLabels` — the parts of an instruction with other labels;
* `Layout.ofItems_renamed` — items with other labels are laid out alike.
-/

namespace Downlevel

open Std (HashMap HashSet)

namespace CodeItem

/-- The item with other labels. -/
def mapLabels (f : Label → Label) : CodeItem → CodeItem
  | plain bytes => plain bytes
  | branch condition target => branch condition (f target)
  | jump opcode wideOpcode target => jump opcode wideOpcode (f target)
  | table fallback low high targets => table (f fallback) low high (targets.map f)
  | lookup fallback cases => lookup (f fallback) (cases.map fun c => (c.1, f c.2))

/-- The labels that an item jumps to. -/
def targets : CodeItem → List Label
  | plain _ => []
  | branch _ target => [target]
  | jump _ _ target => [target]
  | table fallback _ _ targets => fallback :: targets
  | lookup fallback cases => fallback :: cases.map Prod.snd

end CodeItem

namespace Chunk

/-- The part with other labels. -/
def mapLabels (f : Label → Label) : Chunk → Chunk
  | done bytes => done bytes
  | narrow origin target => narrow origin (f target)
  | wide origin target => wide origin (f target)

/-- The label that a part keeps room for the distance to. -/
def target? : Chunk → Option Label
  | done _ => none
  | narrow _ target => some target
  | wide _ target => some target

/-- Renaming labels keeps how many bytes a part takes. -/
@[simp] theorem size_mapLabels (f : Label → Label) (chunk : Chunk) :
    (chunk.mapLabels f).size = chunk.size := by
  cases chunk <;> rfl

end Chunk

/-- An item and the label on it, with other labels. -/
def renameItem (f : Label → Label) (item : Option Label × CodeItem) : Option Label × CodeItem :=
  (item.1.map f, item.2.mapLabels f)

namespace Layout

variable {f : Label → Label} {labels : List Label} {known known' : HashMap Label Nat}

section Parts

/-- Room for a distance is kept for the label that it is the distance to. -/
theorem target?_longTarget {position : Nat} {target other : Label}
    (h : (longTarget known position target).target? = some other) : other = target := by
  unfold longTarget at h
  split at h
  · cases h
  · cases h
    rfl

/-- The labels that parts keep room for are those that the instruction jumps to. -/
theorem mem_targets_of_part {position : Nat} {isWide : Bool} {item : CodeItem} {chunk : Chunk}
    (hchunk : chunk ∈ partsOf known position isWide item) {target : Label}
    (htarget : chunk.target? = some target) : target ∈ item.targets := by
  cases item with
  | plain bytes =>
      rw [List.mem_singleton.mp hchunk] at htarget
      cases htarget
  | branch condition other =>
      simp only [partsOf] at hchunk
      repeat' split at hchunk
      all_goals
        simp only [List.mem_cons, List.not_mem_nil, or_false] at hchunk
        rcases hchunk with rfl | rfl <;> cases htarget <;> exact List.mem_cons_self
  | jump opcode wideOpcode other =>
      simp only [partsOf] at hchunk
      repeat' split at hchunk
      all_goals
        simp only [List.mem_cons, List.not_mem_nil, or_false] at hchunk
        rcases hchunk with rfl | rfl <;> cases htarget <;> exact List.mem_cons_self
  | table fallback low high targets =>
      simp only [partsOf, List.mem_cons, List.mem_map] at hchunk
      rcases hchunk with rfl | rfl | rfl | ⟨other, hother, rfl⟩
      · cases htarget
      · rw [target?_longTarget htarget]
        exact List.mem_cons_self
      · cases htarget
      · rw [target?_longTarget htarget]
        exact List.mem_cons_of_mem _ hother
  | lookup fallback cases =>
      simp only [partsOf, List.mem_cons, List.mem_flatMap, List.not_mem_nil, or_false] at hchunk
      rcases hchunk with rfl | rfl | rfl | ⟨c, hc, rfl | rfl⟩
      · cases htarget
      · rw [target?_longTarget htarget]
        exact List.mem_cons_self
      · cases htarget
      · cases htarget
      · rw [target?_longTarget htarget]
        exact List.mem_cons_of_mem _ (List.mem_map_of_mem hc)

variable (h : Renamed f labels known known') (position : Nat)

include h

/-- The distance to a label that is renamed. -/
theorem longTarget_mapLabels {target : Label} (htarget : target ∈ labels) :
    longTarget known' position (f target) = (longTarget known position target).mapLabels f := by
  unfold longTarget
  rw [h target htarget]
  cases known[target]? <;> rfl

/-- **The parts of an instruction with other labels** are its parts with other labels. -/
theorem partsOf_mapLabels {item : CodeItem} (hitem : ∀ target ∈ item.targets, target ∈ labels)
    (isWide : Bool) : partsOf known' position isWide (item.mapLabels f) =
      (partsOf known position isWide item).map (Chunk.mapLabels f) := by
  cases item with
  | plain bytes => rfl
  | branch condition target =>
      simp only [CodeItem.mapLabels, partsOf, h target (hitem target List.mem_cons_self)]
      split
      · rfl
      · split
        · split <;> rfl
        · rfl
  | jump opcode wideOpcode target =>
      simp only [CodeItem.mapLabels, partsOf, h target (hitem target List.mem_cons_self)]
      split
      · split <;> rfl
      · split <;> rfl
  | table fallback low high targets =>
      obtain ⟨hfirst, hothers⟩ := List.forall_mem_cons.mp hitem
      have htargets : targets.map (longTarget known' position ∘ f) =
          targets.map (Chunk.mapLabels f ∘ longTarget known position) :=
        List.map_congr_left fun target htarget => longTarget_mapLabels h position (hothers target htarget)
      simp only [CodeItem.mapLabels, partsOf, List.map_cons, List.map_map, htargets,
        longTarget_mapLabels h position hfirst]
      rfl
  | lookup fallback cases =>
      obtain ⟨hfirst, hothers⟩ := List.forall_mem_cons.mp hitem
      rw [List.forall_mem_map] at hothers
      have hcases : (cases.flatMap fun c =>
          [Chunk.done (Bytes.ofI32 c.1), longTarget known' position (f c.2)]) =
          cases.flatMap fun c => [(Chunk.done (Bytes.ofI32 c.1)).mapLabels f,
            (longTarget known position c.2).mapLabels f] := by
        refine List.flatMap_congr fun c hc => ?_
        rw [longTarget_mapLabels h position (hothers c hc)]
        rfl
      simp only [CodeItem.mapLabels, partsOf, List.map_cons, List.length_map, List.map_nil,
        longTarget_mapLabels h position hfirst, List.flatMap_map, List.map_flatMap, hcases]
      rfl

end Parts

/-- Placements at the same offsets, with other labels at the same places.  Room is kept for the
distances to some labels only. -/
structure Placement.Alike (f : Label → Label) (labels : List Label)
    (placement placement' : Placement) : Prop where
  placed : placement'.placed = placement.placed.map (List.map (Chunk.mapLabels f))
  offsets : placement'.offsets = placement.offsets
  renamed : Renamed f labels placement.labels placement'.labels
  size : placement'.size = placement.size
  targets : ∀ parts ∈ placement.placed, ∀ chunk ∈ parts, ∀ target,
    chunk.target? = some target → target ∈ labels

/-- Some labels are the only ones that an item has or jumps to. -/
def Uses (labels : List Label) (item : Option Label × CodeItem) : Prop :=
  (∀ label, item.1 = some label → label ∈ labels) ∧ ∀ target ∈ item.2.targets, target ∈ labels

section Placing

variable (hf : Set.InjOn f {label | label ∈ labels}) {placement placement' : Placement}

include hf

/-- One more instruction is placed alike. -/
theorem Placement.Alike.add (h : placement.Alike f labels placement')
    {item : Option Label × CodeItem} (hitem : Uses labels item) (isWide : Bool) :
    (placement.add isWide item.1 item.2).Alike f labels
      (placement'.add isWide (renameItem f item).1 (renameItem f item).2) := by
  obtain ⟨label, item⟩ := item
  obtain ⟨placed, starts, known, total⟩ := placement
  obtain ⟨placed', starts', known', total'⟩ := placement'
  obtain ⟨hplaced, hoffsets, hrenamed, hsize, htargets⟩ := h
  dsimp only at hplaced hoffsets hrenamed hsize htargets
  subst hplaced hoffsets hsize
  have hadded : Renamed f labels (Placement.add ⟨placed, starts', known, total'⟩ isWide label item).labels
      (Placement.add ⟨placed.map (List.map (Chunk.mapLabels f)), starts', known', total'⟩ isWide
        (label.map f) (item.mapLabels f)).labels := by
    cases label with
    | none => exact hrenamed
    | some label => exact hrenamed.insert hf (hitem.1 label rfl) total'
  have hparts := partsOf_mapLabels hadded total' hitem.2 isWide
  refine ⟨congrArg (· :: _) hparts, rfl, hadded, ?_, ?_⟩
  · refine (congrArg (List.foldl (fun total part => total + part.size) total') hparts).trans ?_
    rw [List.foldl_map]
    simp only [Chunk.size_mapLabels]
    rfl
  · refine List.forall_mem_cons.mpr ⟨fun chunk hchunk target htarget => ?_, htargets⟩
    exact hitem.2 target (mem_targets_of_part hchunk htarget)

/-- Instructions are placed alike. -/
theorem addAll_alike {wide : HashSet Nat} {items : List (Option Label × CodeItem)}
    (hitems : ∀ item ∈ items, Uses labels item) (h : placement.Alike f labels placement')
    {last : Placement} (hrun : Placement.addAll wide items placement = .ok last) :
    ∃ last', Placement.addAll wide (items.map (renameItem f)) placement' = .ok last' ∧
      last.Alike f labels last' := by
  induction items generalizing placement placement' with
  | nil =>
      cases hrun
      exact ⟨placement', rfl, h⟩
  | cons item items ih =>
      obtain ⟨hfirst, hothers⟩ := List.forall_mem_cons.mp hitems
      obtain ⟨⟨⟩, hcheck, hrest⟩ := bind_eq_ok.mp hrun
      rw [← h.offsets] at hrest
      obtain ⟨last', hlast', halike⟩ := ih hothers (h.add hf hfirst _) hrest
      refine ⟨last', bind_eq_ok.mpr ⟨(), ?_, hlast'⟩, halike⟩
      rw [Placement.check_eq_ok, h.size]
      exact Placement.check_eq_ok.mp hcheck

/-- All instructions and the label behind them are placed alike. -/
theorem place_alike {wide : HashSet Nat} {items : List (Option Label × CodeItem)}
    (hitems : ∀ item ∈ items, Uses labels item) {lastLabel : Option Label}
    (hlast : ∀ label, lastLabel = some label → label ∈ labels)
    (hrun : place wide items lastLabel = .ok placement) :
    ∃ placement', place wide (items.map (renameItem f)) (lastLabel.map f) = .ok placement' ∧
      placement.Alike f labels placement' := by
  obtain ⟨before, hbefore, hrest⟩ := bind_eq_ok.mp hrun
  obtain ⟨⟨⟩, hcheck, hrest⟩ := bind_eq_ok.mp hrest
  have hempty : Placement.Alike f labels {} {} :=
    ⟨rfl, rfl, renamed_empty, rfl, fun _ hparts => by cases hparts⟩
  obtain ⟨before', hbefore', halike⟩ := addAll_alike hf hitems hempty hbefore
  have hcheck' : before'.check = .ok () := by
    rw [Placement.check_eq_ok, halike.size]
    exact Placement.check_eq_ok.mp hcheck
  cases lastLabel with
  | none =>
      cases hrest
      exact ⟨before', bind_eq_ok.mpr ⟨before', hbefore', bind_eq_ok.mpr ⟨(), hcheck', rfl⟩⟩, halike⟩
  | some label =>
      cases hrest
      refine ⟨_, bind_eq_ok.mpr ⟨before', hbefore', bind_eq_ok.mpr ⟨(), hcheck', rfl⟩⟩, ?_⟩
      refine { halike with renamed := ?_ }
      rw [halike.size]
      exact halike.renamed.insert hf (hlast label rfl) before.size

end Placing

section Filling

variable {places places' : HashMap Label Nat} (h : Renamed f labels places places')

include h

/-- Where a label is, is found through the label in its place. -/
theorem placeOf_renamed {label : Label} (hlabel : label ∈ labels) {place : Nat}
    (hplace : placeOf places label = .ok place) : placeOf places' (f label) = .ok place := by
  unfold placeOf at hplace ⊢
  rw [orFail_eq_ok] at hplace ⊢
  rw [h label hlabel, hplace]

/-- Distances are filled in alike in the parts of an instruction. -/
theorem fillFrom_renamed {parts : List Chunk} (hparts : ∀ chunk ∈ parts, ∀ target,
      chunk.target? = some target → target ∈ labels) {done : List Bytes} {filled : Filled Bytes}
    (hrun : fillFrom places done parts = .ok filled) :
    fillFrom places' done (parts.map (Chunk.mapLabels f)) = .ok filled := by
  induction parts generalizing done with
  | nil => exact hrun
  | cons chunk parts ih =>
      obtain ⟨hfirst, hothers⟩ := List.forall_mem_cons.mp hparts
      cases chunk with
      | done bytes => exact ih hothers hrun
      | narrow origin target =>
          obtain ⟨place, hplace, hrest⟩ := bind_eq_ok.mp hrun
          refine bind_eq_ok.mpr ⟨place, ?_, ?_⟩
          · rw [within_eq_ok] at hplace ⊢
            exact placeOf_renamed h (hfirst target rfl) hplace
          · split at hrest
            case isTrue hshort =>
              rw [if_pos hshort]
              exact ih hothers hrest
            case isFalse hlong =>
              rw [if_neg hlong]
              exact hrest
      | wide origin target =>
          obtain ⟨place, hplace, hrest⟩ := bind_eq_ok.mp hrun
          refine bind_eq_ok.mpr ⟨place, ?_, ih hothers hrest⟩
          rw [within_eq_ok] at hplace ⊢
          exact placeOf_renamed h (hfirst target rfl) hplace

/-- Distances are filled in alike in all instructions. -/
theorem fillAll_renamed {all : List (List Chunk)} (hall : ∀ parts ∈ all, ∀ chunk ∈ parts, ∀ target,
      chunk.target? = some target → target ∈ labels) {index : Nat} {done : List Bytes}
    {filled : List Bytes ⊕ Nat} (hrun : fillAll places index done all = .ok filled) :
    fillAll places' index done (all.map (List.map (Chunk.mapLabels f))) = .ok filled := by
  induction all generalizing index done with
  | nil => exact hrun
  | cons parts all ih =>
      obtain ⟨hfirst, hothers⟩ := List.forall_mem_cons.mp hall
      obtain ⟨first, hparts, hrest⟩ := bind_eq_ok.mp hrun
      refine bind_eq_ok.mpr ⟨first, fillFrom_renamed h hfirst hparts, ?_⟩
      cases first with
      | fits bytes => exact ih hothers hrest
      | tooFar => exact hrest

end Filling

/-- Layouts at the same offsets with the same bytes, with other labels at the same places. -/
structure SameBut (f : Label → Label) (labels : List Label) (layout layout' : Layout) : Prop where
  chunks : layout'.chunks = layout.chunks
  offsets : layout'.offsets = layout.offsets
  renamed : Renamed f labels layout.labels layout'.labels
  size : layout'.size = layout.size
  wide : layout'.wide = layout.wide

section Settling

variable (hf : Set.InjOn f {label | label ∈ labels}) {items : List (Option Label × CodeItem)}
  (hitems : ∀ item ∈ items, Uses labels item) {lastLabel : Option Label}
  (hlast : ∀ label, lastLabel = some label → label ∈ labels) {layout : Layout}

include hf hitems hlast

/-- Items with other labels settle alike. -/
theorem settle_renamed {attempts : Nat} {wide : HashSet Nat}
    (hrun : settle items lastLabel attempts wide = .ok layout) :
    ∃ layout', settle (items.map (renameItem f)) (lastLabel.map f) attempts wide = .ok layout' ∧
      layout.SameBut f labels layout' := by
  induction attempts generalizing wide with
  | zero => cases hrun
  | succ attempts ih =>
      obtain ⟨placement, hplace, hrest⟩ := bind_eq_ok.mp hrun
      obtain ⟨filled, hfilled, hrest⟩ := bind_eq_ok.mp hrest
      obtain ⟨placement', hplace', halike⟩ := place_alike hf hitems hlast hplace
      have hfilled' := fillAll_renamed halike.renamed
        (fun parts hparts => halike.targets parts (List.mem_reverse.mp hparts)) hfilled
      rw [List.map_reverse, ← halike.placed] at hfilled'
      cases filled with
      | inl chunks =>
          cases hrest
          exact ⟨_, bind_eq_ok.mpr ⟨placement', hplace', bind_eq_ok.mpr ⟨_, hfilled', rfl⟩⟩,
            ⟨rfl, halike.offsets, halike.renamed, halike.size, rfl⟩⟩
      | inr index =>
          obtain ⟨layout', hlayout', hsame⟩ := ih hrest
          exact ⟨layout', bind_eq_ok.mpr ⟨placement', hplace', bind_eq_ok.mpr ⟨_, hfilled',
            hlayout'⟩⟩, hsame⟩

/-- **Items with other labels are laid out alike.** -/
theorem ofItems_renamed (hrun : ofItems items lastLabel = .ok layout) :
    ∃ layout', ofItems (items.map (renameItem f)) (lastLabel.map f) = .ok layout' ∧
      layout.SameBut f labels layout' := by
  unfold ofItems
  rw [List.length_map]
  exact settle_renamed hf hitems hlast hrun

end Settling

end Layout

end Downlevel
