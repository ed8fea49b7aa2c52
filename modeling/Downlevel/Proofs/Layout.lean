import Downlevel.Code.Layout
import Downlevel.Proofs.Outcome

/-!
# Where instructions are placed

Placing instructions ends with bytes for each of them.  This file says what these bytes are, without
saying how they were found: `Fits` is about one instruction at its position, where the places of all
labels are known, and `Laid` goes along all instructions, each behind the bytes of the one before.

A jump back is settled with the labels known until then and a jump ahead with all of them.  No label
is placed twice, so what is known at some point stays true, and both are the same in the end.

* `laid_ofItems` — a layout that was settled is laid out in this sense;
* `Laid.places` — labels on instructions have their places inside the code.
-/

namespace Downlevel

namespace Layout

open Std (HashMap HashSet)

/-- What one map knows, the other knows too. -/
def Within (known labels : HashMap Label Nat) : Prop :=
  ∀ (label : Label) (place : Nat), known[label]? = some place → labels[label]? = some place

/-- The bytes of a part of an instruction, once the places of all labels are known. -/
def ChunkBytes (labels : HashMap Label Nat) : Chunk → Bytes → Prop
  | .done bytes, piece => piece = bytes
  | .narrow origin target, piece => ∃ place, labels[target]? = some place ∧
      isShort (distance origin place) = true ∧ piece = short (distance origin place)
  | .wide origin target, piece => ∃ place, labels[target]? = some place ∧
      piece = long (distance origin place)

/-- The bytes of an instruction at a position, where the places of all labels are known. -/
inductive Fits (labels : HashMap Label Nat) (position : Nat) : Bool → CodeItem → Bytes → Prop where
  | plain {isWide : Bool} (bytes : Bytes) : Fits labels position isWide (.plain bytes) bytes
  | branch {condition : Condition} {target : Label} {place : Nat}
      (target_place : labels[target]? = some place)
      (near : isShort (distance position place) = true) :
      Fits labels position false (.branch condition target)
        (condition.opcode :: short (distance position place))
  /-- A conditional jump over a plain one. -/
  | farBranch {condition : Condition} {target : Label} {place : Nat}
      (target_place : labels[target]? = some place) :
      Fits labels position true (.branch condition target)
        (condition.inverse.opcode :: (short 8 ++ [0xc8] ++ long (distance (position + 3) place)))
  | jump {isWide : Bool} {opcode wideOpcode : UInt8} {target : Label} {place : Nat}
      (target_place : labels[target]? = some place)
      (near : isShort (distance position place) = true) :
      Fits labels position isWide (.jump opcode wideOpcode target)
        (opcode :: short (distance position place))
  | farJump {isWide : Bool} {opcode wideOpcode : UInt8} {target : Label} {place : Nat}
      (target_place : labels[target]? = some place) :
      Fits labels position isWide (.jump opcode wideOpcode target)
        (wideOpcode :: long (distance position place))
  | table {isWide : Bool} {fallback : Label} {low high : Int32} {targets : List Label}
      {place : Nat} {places : List Nat} (fallback_place : labels[fallback]? = some place)
      (target_places : List.Forall₂ (fun target place => labels[target]? = some place)
        targets places) :
      Fits labels position isWide (.table fallback low high targets)
        (0xaa :: (padding position ++ (long (distance position place) ++
          (Bytes.ofI32 low ++ Bytes.ofI32 high ++
            (places.map fun place => long (distance position place)).flatten))))
  | lookup {isWide : Bool} {fallback : Label} {cases : List (Int32 × Label)}
      {place : Nat} {parts : List Bytes} (fallback_place : labels[fallback]? = some place)
      (case_places : List.Forall₂ (fun (c : Int32 × Label) part => ∃ place,
        labels[c.2]? = some place ∧ part = Bytes.ofI32 c.1 ++ long (distance position place))
        cases parts) :
      Fits labels position isWide (.lookup fallback cases)
        (0xab :: (padding position ++ (long (distance position place) ++
          (Bytes.ofU32 cases.length.toUInt32 ++ parts.flatten))))

section Instruction

variable {labels known : HashMap Label Nat} {position : Nat}

/-- A part of an instruction is as long as the room it was given. -/
theorem ChunkBytes.length_eq {chunk : Chunk} {piece : Bytes} (h : ChunkBytes labels chunk piece) :
    piece.length = chunk.size := by
  cases chunk with
  | done bytes => rw [show piece = bytes from h, Chunk.size]
  | narrow origin target =>
      obtain ⟨place, -, -, rfl⟩ := h
      rfl
  | wide origin target =>
      obtain ⟨place, -, rfl⟩ := h
      rfl

/-- The bytes of all parts are as long as their room. -/
theorem foldl_size {parts : List Chunk} {pieces : List Bytes}
    (h : List.Forall₂ (ChunkBytes labels) parts pieces) (size : Nat) :
    parts.foldl (fun total part => total + part.size) size = size + pieces.flatten.length := by
  induction h generalizing size with
  | nil => rfl
  | cons hfirst _ ih =>
      rw [List.foldl_cons, ih, ← hfirst.length_eq, List.flatten_cons, List.length_append,
        Nat.add_assoc]

/-- Where a label is found, it is. -/
theorem placeOf_eq_ok {label : Label} {place : Nat} :
    within (.write .unplacedTarget) (placeOf labels label) = .ok place ↔
      labels[label]? = some place := by
  rw [within_eq_ok, placeOf, orFail_eq_ok]

/-- Filling in distances gives the bytes of each part. -/
theorem fillFrom_eq_fits {parts : List Chunk} {done : List Bytes} {bytes : Bytes}
    (h : fillFrom labels done parts = .ok (.fits bytes)) :
    ∃ pieces, List.Forall₂ (ChunkBytes labels) parts pieces ∧
      bytes = done.reverse.flatten ++ pieces.flatten := by
  induction parts generalizing done with
  | nil =>
      simp only [fillFrom, Except.ok.injEq, Filled.fits.injEq] at h
      exact ⟨[], .nil, by simp [h]⟩
  | cons part parts ih =>
      cases part with
      | done own =>
          obtain ⟨pieces, hpieces, rfl⟩ := ih h
          exact ⟨own :: pieces, .cons rfl hpieces, by simp⟩
      | narrow origin target =>
          obtain ⟨place, hplace, hrest⟩ := bind_eq_ok.mp h
          rw [placeOf_eq_ok] at hplace
          split at hrest
          case isTrue hshort =>
            obtain ⟨pieces, hpieces, rfl⟩ := ih hrest
            exact ⟨_ :: pieces, .cons ⟨place, hplace, hshort, rfl⟩ hpieces, by simp⟩
          case isFalse => cases hrest
      | wide origin target =>
          obtain ⟨place, hplace, hrest⟩ := bind_eq_ok.mp h
          rw [placeOf_eq_ok] at hplace
          obtain ⟨pieces, hpieces, rfl⟩ := ih hrest
          exact ⟨_ :: pieces, .cons ⟨place, hplace, rfl⟩ hpieces, by simp⟩

/-- Filling in the distances of all instructions gives the bytes of each. -/
theorem fillAll_eq_inl {all : List (List Chunk)} {index : Nat} {done chunks : List Bytes}
    (h : fillAll labels index done all = .ok (.inl chunks)) :
    ∃ own, chunks = done.reverse ++ own ∧
      List.Forall₂ (fun parts bytes => ∃ pieces,
        List.Forall₂ (ChunkBytes labels) parts pieces ∧ bytes = pieces.flatten) all own := by
  induction all generalizing index done with
  | nil =>
      simp only [fillAll, Except.ok.injEq, Sum.inl.injEq] at h
      exact ⟨[], by simp [h], .nil⟩
  | cons parts all ih =>
      obtain ⟨filled, hfilled, hrest⟩ := bind_eq_ok.mp h
      cases filled with
      | tooFar => cases hrest
      | fits bytes =>
          obtain ⟨own, rfl, hown⟩ := ih hrest
          obtain ⟨pieces, hpieces, hbytes⟩ := fillFrom_eq_fits hfilled
          exact ⟨bytes :: own, by simp, .cons ⟨pieces, hpieces, by simpa using hbytes⟩ hown⟩

/-- A distance in four bytes is the same whether it was known at once or not. -/
theorem longTarget_bytes (hknown : Within known labels) {target : Label} {piece : Bytes}
    (h : ChunkBytes labels (longTarget known position target) piece) :
    ∃ place, labels[target]? = some place ∧ piece = long (distance position place) := by
  unfold longTarget at h
  split at h
  case h_1 place hplace => exact ⟨place, hknown _ _ hplace, h⟩
  case h_2 => exact h

/-- Distances in four bytes, one behind the other. -/
theorem longTargets_bytes (hknown : Within known labels) {targets : List Label}
    {pieces : List Bytes}
    (h : List.Forall₂ (ChunkBytes labels) (targets.map (longTarget known position)) pieces) :
    ∃ places, List.Forall₂ (fun target place => labels[target]? = some place) targets places ∧
      pieces = places.map fun place => long (distance position place) := by
  induction targets generalizing pieces with
  | nil =>
      cases h
      exact ⟨[], .nil, rfl⟩
  | cons target targets ih =>
      cases h with
      | cons hfirst hrest =>
        obtain ⟨place, hplace, rfl⟩ := longTarget_bytes hknown hfirst
        obtain ⟨places, hplaces, rfl⟩ := ih hrest
        exact ⟨place :: places, .cons hplace hplaces, rfl⟩

/-- Keys with their distances, one behind the other. -/
theorem cases_bytes (hknown : Within known labels) {cases : List (Int32 × Label)}
    {pieces : List Bytes}
    (h : List.Forall₂ (ChunkBytes labels)
      (cases.flatMap fun c => [.done (Bytes.ofI32 c.1), longTarget known position c.2]) pieces) :
    ∃ parts, List.Forall₂ (fun (c : Int32 × Label) part => ∃ place,
        labels[c.2]? = some place ∧ part = Bytes.ofI32 c.1 ++ long (distance position place))
        cases parts ∧ pieces.flatten = parts.flatten := by
  induction cases generalizing pieces with
  | nil =>
      cases h
      exact ⟨[], .nil, rfl⟩
  | cons c cases ih =>
      rw [List.flatMap_cons] at h
      cases h with
      | @cons _ key _ _ hkey hrest =>
        cases hrest with
        | @cons _ piece _ _ hpiece hrest =>
          obtain rfl : key = Bytes.ofI32 c.1 := hkey
          obtain ⟨place, hplace, rfl⟩ := longTarget_bytes hknown hpiece
          obtain ⟨parts, hparts, hflatten⟩ := ih hrest
          exact ⟨_ :: parts, .cons ⟨place, hplace, rfl⟩ hparts, by simp [hflatten]⟩

/-- Bytes that are known stay what they are. -/
theorem done_bytes {bytes : Bytes} {pieces : List Bytes}
    (h : List.Forall₂ (ChunkBytes labels) [.done bytes] pieces) : pieces.flatten = bytes := by
  cases h with
  | @cons _ piece _ _ hfirst hrest =>
    cases hrest
    obtain rfl : piece = bytes := hfirst
    rw [List.flatten_cons, List.flatten_nil, List.append_nil]

/-- An opcode with room for a distance in two bytes. -/
theorem narrow_bytes {opcode : UInt8} {target : Label} {pieces : List Bytes}
    (h : List.Forall₂ (ChunkBytes labels) [.done [opcode], .narrow position target] pieces) :
    ∃ place, labels[target]? = some place ∧ isShort (distance position place) = true ∧
      pieces.flatten = opcode :: short (distance position place) := by
  cases h with
  | @cons _ piece _ _ hfirst hrest =>
    obtain rfl : piece = [opcode] := hfirst
    cases hrest with
    | cons hsecond hrest =>
      cases hrest
      obtain ⟨place, hplace, hshort, rfl⟩ := hsecond
      exact ⟨place, hplace, hshort, rfl⟩

/-- Bytes with room for a distance in four bytes behind them. -/
theorem wide_bytes {origin : Nat} {bytes : Bytes} {target : Label} {pieces : List Bytes}
    (h : List.Forall₂ (ChunkBytes labels) [.done bytes, .wide origin target] pieces) :
    ∃ place, labels[target]? = some place ∧
      pieces.flatten = bytes ++ long (distance origin place) := by
  cases h with
  | @cons _ piece _ _ hfirst hrest =>
    obtain rfl : piece = bytes := hfirst
    cases hrest with
    | cons hsecond hrest =>
      cases hrest
      obtain ⟨place, hplace, rfl⟩ := hsecond
      exact ⟨place, hplace, by rw [List.flatten_cons, List.flatten_cons, List.flatten_nil,
        List.append_nil]⟩

/-- The parts of a jump on a condition, filled in, are its bytes. -/
theorem branch_of_parts (hknown : Within known labels) {isWide : Bool} {condition : Condition}
    {target : Label} {pieces : List Bytes}
    (h : List.Forall₂ (ChunkBytes labels)
      (partsOf known position isWide (.branch condition target)) pieces) :
    Fits labels position isWide (.branch condition target) pieces.flatten := by
  simp only [partsOf] at h
  split at h
  case isTrue hwide =>
    obtain ⟨place, hplace, hpieces⟩ := wide_bytes h
    subst hwide
    rw [hpieces]
    exact .farBranch hplace
  case isFalse hwide =>
    obtain rfl := Bool.eq_false_iff.mpr hwide
    split at h
    case h_1 place hplace =>
      split at h
      case isTrue hshort =>
        rw [done_bytes h]
        exact .branch (hknown _ _ hplace) hshort
      case isFalse =>
        obtain ⟨place, hplace, hshort, hpieces⟩ := narrow_bytes h
        rw [hpieces]
        exact .branch hplace hshort
    case h_2 =>
      obtain ⟨place, hplace, hshort, hpieces⟩ := narrow_bytes h
      rw [hpieces]
      exact .branch hplace hshort

/-- So are those of a jump that is always taken. -/
theorem jump_of_parts (hknown : Within known labels) {isWide : Bool} {opcode wideOpcode : UInt8}
    {target : Label} {pieces : List Bytes}
    (h : List.Forall₂ (ChunkBytes labels)
      (partsOf known position isWide (.jump opcode wideOpcode target)) pieces) :
    Fits labels position isWide (.jump opcode wideOpcode target) pieces.flatten := by
  simp only [partsOf] at h
  split at h
  case h_1 place hplace =>
    split at h
    case isTrue hshort =>
      rw [Bool.and_eq_true] at hshort
      rw [done_bytes h]
      exact .jump (hknown _ _ hplace) hshort.1
    case isFalse =>
      rw [done_bytes h]
      exact .farJump (hknown _ _ hplace)
  case h_2 =>
    split at h
    case isTrue =>
      obtain ⟨place, hplace, hpieces⟩ := wide_bytes h
      rw [hpieces]
      exact .farJump hplace
    case isFalse =>
      obtain ⟨place, hplace, hshort, hpieces⟩ := narrow_bytes h
      rw [hpieces]
      exact .jump hplace hshort

/-- A table has its opcode, the distance to fall back to and a header in front of the rest. -/
theorem table_bytes (hknown : Within known labels) {front header : Bytes} {fallback : Label}
    {parts : List Chunk} {pieces : List Bytes}
    (h : List.Forall₂ (ChunkBytes labels)
      (.done front :: longTarget known position fallback :: .done header :: parts) pieces) :
    ∃ place rest, labels[fallback]? = some place ∧ List.Forall₂ (ChunkBytes labels) parts rest ∧
      pieces = front :: long (distance position place) :: header :: rest := by
  obtain _ | ⟨hfront, _ | ⟨hfallback, _ | ⟨hheader, hrest⟩⟩⟩ := h
  obtain rfl := hfront
  obtain rfl := hheader
  obtain ⟨place, hplace, rfl⟩ := longTarget_bytes hknown hfallback
  exact ⟨place, _, hplace, hrest, rfl⟩

/-- **The parts of an instruction, filled in, are its bytes.** -/
theorem fits_of_parts (hknown : Within known labels) {isWide : Bool} {item : CodeItem}
    {pieces : List Bytes}
    (h : List.Forall₂ (ChunkBytes labels) (partsOf known position isWide item) pieces) :
    Fits labels position isWide item pieces.flatten := by
  cases item with
  | plain bytes =>
      rw [done_bytes h]
      exact .plain bytes
  | branch condition target => exact branch_of_parts hknown h
  | jump opcode wideOpcode target => exact jump_of_parts hknown h
  | table fallback low high targets =>
      obtain ⟨place, rest, hplace, hrest, rfl⟩ := table_bytes hknown h
      obtain ⟨places, hplaces, rfl⟩ := longTargets_bytes hknown hrest
      exact .table hplace hplaces
  | lookup fallback cases' =>
      obtain ⟨place, rest, hplace, hrest, rfl⟩ := table_bytes hknown h
      obtain ⟨parts, hparts, hflatten⟩ := cases_bytes hknown hrest
      simp only [List.flatten_cons, hflatten]
      exact .lookup hplace hparts

/-- No instruction but a plain one can be without bytes. -/
theorem Fits.ne_nil {isWide : Bool} {item : CodeItem} {bytes : Bytes}
    (h : Fits labels position isWide item bytes) (hplain : item ≠ .plain []) : bytes ≠ [] := by
  rintro rfl
  cases h
  exact hplain rfl

end Instruction

/-- Instructions from an index and a position on, each behind the bytes of the one before and the
last one at the end of the code, where all labels are at the positions of their instructions. -/
inductive Laid (labels : HashMap Label Nat) (wide : HashSet Nat) (size : Nat) :
    Nat → Nat → List (Option Label × CodeItem) → List Bytes → Prop where
  | done (index : Nat) : Laid labels wide size index size [] []
  | more {index position : Nat} {label : Option Label} {item : CodeItem} {bytes : Bytes}
      {items : List (Option Label × CodeItem)} {chunks : List Bytes}
      (start : position < 65536)
      (label_place : ∀ (own : Label), label = some own → labels[own]? = some position)
      (fits : Fits labels position (wide.contains index) item bytes)
      (rest : Laid labels wide size (index + 1) (position + bytes.length) items chunks) :
      Laid labels wide size index position ((label, item) :: items) (bytes :: chunks)

/-- The labels on instructions. -/
def placedLabels (items : List (Option Label × CodeItem)) : List Label :=
  items.filterMap Prod.fst

section Code

variable {labels : HashMap Label Nat} {wide : HashSet Nat}
  {items : List (Option Label × CodeItem)} {lastLabel : Option Label}

/-- A label is on the first instruction or on another one. -/
theorem mem_placedLabels_cons {label : Option Label} {item : CodeItem} {own : Label} :
    own ∈ placedLabels ((label, item) :: items) ↔ label = some own ∨ own ∈ placedLabels items := by
  cases label with
  | none => simp [placedLabels]
  | some first => simp [placedLabels, eq_comm]

/-- No label is on two instructions if that of the first one is not on another one, and none is on two
of the others. -/
theorem nodup_placedLabels_cons {label : Option Label} {item : CodeItem} :
    (placedLabels ((label, item) :: items)).Nodup ↔
      (∀ own ∈ placedLabels items, label ≠ some own) ∧ (placedLabels items).Nodup := by
  cases label with
  | none => simp [placedLabels]
  | some first =>
      have hcons : placedLabels ((some first, item) :: items) = first :: placedLabels items := rfl
      rw [hcons, List.nodup_cons]
      refine and_congr_left fun _ => ⟨?_, fun hall hmem => hall first hmem rfl⟩
      rintro hnot own hmem ⟨⟩
      exact hnot hmem

/-- One more label that was not known does not touch the others. -/
theorem within_insert {known : HashMap Label Nat} {label : Label} {place : Nat}
    (h : known[label]? = none) : Within known (known.insert label place) := by
  intro other found hfound
  rw [HashMap.getElem?_insert]
  split
  case isTrue heq =>
    obtain rfl := eq_of_beq heq
    rw [h] at hfound
    cases hfound
  case isFalse => exact hfound

/-- A placement that passed its check leaves room for an instruction to start. -/
theorem Placement.check_eq_ok {placement : Placement} {u : Unit} :
    placement.check = .ok u ↔ placement.size < 65536 := by
  unfold Placement.check
  split <;> simp [*]

/-- What one more instruction does to a placement. -/
theorem Placement.add_labels (placement : Placement) (isWide : Bool) {label : Option Label}
    (item : CodeItem) (hfresh : ∀ (own : Label), label = some own → placement.labels[own]? = none) :
    Within placement.labels (placement.add isWide label item).labels ∧
      (∀ (own : Label), label = some own →
        (placement.add isWide label item).labels[own]? = some placement.size) ∧
      ∀ (other : Label), label ≠ some other →
        (placement.add isWide label item).labels[other]? = placement.labels[other]? := by
  cases label with
  | none => exact ⟨fun _ _ h => h, nofun, fun _ _ => rfl⟩
  | some own =>
      refine ⟨within_insert (hfresh own rfl), ?_, ?_⟩
      · rintro _ ⟨⟩
        exact HashMap.getElem?_insert_self
      · intro other hne
        show (placement.labels.insert own placement.size)[other]? = _
        rw [HashMap.getElem?_insert, if_neg]
        intro heq
        exact hne (congrArg some (eq_of_beq heq))

/-- **Instructions that were placed one after the other are laid out**, once the parts of each are
filled in with labels that include those of the placement. -/
theorem laid_of_addAll {placement placement' : Placement}
    (h : Placement.addAll wide items placement = .ok placement')
    (hfresh : ∀ label ∈ placedLabels items, placement.labels[label]? = none)
    (hnodup : (placedLabels items).Nodup) :
    Within placement.labels placement'.labels ∧
      (∀ (label : Label), label ∉ placedLabels items →
        placement'.labels[label]? = placement.labels[label]?) ∧
      ∃ parts, placement'.placed = parts.reverse ++ placement.placed ∧
        ∀ (labels : HashMap Label Nat) (chunks : List Bytes), Within placement'.labels labels →
          List.Forall₂ (fun parts bytes => ∃ pieces,
            List.Forall₂ (ChunkBytes labels) parts pieces ∧ bytes = pieces.flatten) parts chunks →
          Laid labels wide placement'.size placement.offsets.size placement.size items chunks := by
  induction items generalizing placement with
  | nil =>
      cases h
      refine ⟨fun _ _ h => h, fun _ _ => rfl, [], rfl, fun labels chunks _ hchunks => ?_⟩
      cases hchunks
      exact .done _
  | cons entry items ih =>
      obtain ⟨label, item⟩ := entry
      obtain ⟨⟨⟩, hcheck, hrest⟩ := bind_eq_ok.mp h
      rw [Placement.check_eq_ok] at hcheck
      let isWide := wide.contains placement.offsets.size
      let added := placement.add isWide label item
      obtain ⟨hdistinct, hnodup⟩ := nodup_placedLabels_cons.mp hnodup
      have hfirst : ∀ (own : Label), label = some own → placement.labels[own]? = none :=
        fun own hown => hfresh own (mem_placedLabels_cons.mpr (.inl hown))
      obtain ⟨hadd, hown, hother⟩ := placement.add_labels isWide item hfirst
      have hnext : ∀ label' ∈ placedLabels items, added.labels[label']? = none := by
        intro label' hmem
        rw [hother _ (hdistinct label' hmem)]
        exact hfresh label' (mem_placedLabels_cons.mpr (.inr hmem))
      obtain ⟨hwithin, hothers, parts, hplaced, hlaid⟩ := ih hrest hnext hnodup
      refine ⟨fun _ _ hfound => hwithin _ _ (hadd _ _ hfound), fun label' hmem => ?_,
        partsOf added.labels placement.size isWide item :: parts, ?_,
        fun labels chunks hlabels hchunks => ?_⟩
      · rw [mem_placedLabels_cons, not_or] at hmem
        rw [hothers _ hmem.2, hother _ hmem.1]
      · rw [hplaced, List.reverse_cons, List.append_assoc]
        rfl
      · cases hchunks with
        | cons hfirst hchunks =>
          obtain ⟨pieces, hpieces, rfl⟩ := hfirst
          have hsize : added.size = placement.size + pieces.flatten.length :=
            foldl_size hpieces placement.size
          have hindex : added.offsets.size = placement.offsets.size + 1 := Array.size_push _
          have hrest : Laid labels wide placement'.size added.offsets.size added.size items _ :=
            hlaid labels _ hlabels hchunks
          rw [hsize, hindex] at hrest
          refine .more hcheck ?_ (fits_of_parts ?_ hpieces) hrest
          · intro own hown'
            exact hlabels _ _ (hwithin _ _ (hown own hown'))
          · intro label' place hfound
            exact hlabels _ _ (hwithin _ _ hfound)

/-- A placement with the label behind the last instruction. -/
theorem place_eq_ok {placement : Placement} (h : place wide items lastLabel = .ok placement) :
    ∃ before, Placement.addAll wide items {} = .ok before ∧ before.size < 65536 ∧
      placement.placed = before.placed ∧ placement.offsets = before.offsets ∧
      placement.size = before.size ∧
      placement.labels = match lastLabel with
        | some label => before.labels.insert label before.size
        | none => before.labels := by
  obtain ⟨before, hbefore, hrest⟩ := bind_eq_ok.mp h
  obtain ⟨⟨⟩, hcheck, hrest⟩ := bind_eq_ok.mp hrest
  rw [Placement.check_eq_ok] at hcheck
  refine ⟨before, hbefore, hcheck, ?_⟩
  cases lastLabel with
  | none =>
      cases hrest
      exact ⟨rfl, rfl, rfl, rfl⟩
  | some label =>
      cases hrest
      exact ⟨rfl, rfl, rfl, rfl⟩

/-- A layout that was settled comes from a placement whose distances were filled in. -/
theorem settle_eq_ok {attempts : Nat} {layout : Layout}
    (h : settle items lastLabel attempts wide = .ok layout) :
    ∃ placement, place layout.wide items lastLabel = .ok placement ∧
      fillAll placement.labels 0 [] placement.placed.reverse = .ok (.inl layout.chunks) ∧
      layout.labels = placement.labels ∧ layout.offsets = placement.offsets ∧
      layout.size = placement.size := by
  induction attempts generalizing wide with
  | zero => cases h
  | succ attempts ih =>
      obtain ⟨placement, hplace, hrest⟩ := bind_eq_ok.mp h
      obtain ⟨filled, hfilled, hrest⟩ := bind_eq_ok.mp hrest
      cases filled with
      | inl chunks =>
          cases hrest
          exact ⟨placement, hplace, hfilled, rfl, rfl, rfl⟩
      | inr index => exact ih hrest

/-- **A layout that was settled is laid out**: every instruction has its bytes behind those before
it, and every label is at the position of its instruction, or at the end. -/
theorem laid_ofItems {layout : Layout} (h : ofItems items lastLabel = .ok layout)
    (hnodup : (placedLabels items ++ lastLabel.toList).Nodup) :
    Laid layout.labels layout.wide layout.size 0 0 items layout.chunks ∧ layout.size < 65536 ∧
      ∀ (label : Label), lastLabel = some label → layout.labels[label]? = some layout.size := by
  obtain ⟨placement, hplace, hfilled, hlabels, -, hsize⟩ := settle_eq_ok h
  obtain ⟨before, hbefore, hsmall, hplaced, -, hsize', hlabels'⟩ := place_eq_ok hplace
  obtain ⟨hitems, -, hdisjoint⟩ := List.nodup_append.mp hnodup
  obtain ⟨-, hothers, parts, hparts, hlaid⟩ :=
    laid_of_addAll hbefore (fun _ _ => HashMap.getElem?_empty) hitems
  obtain ⟨chunks, hchunks, hall⟩ := fillAll_eq_inl hfilled
  rw [List.reverse_nil, List.nil_append] at hchunks
  rw [hplaced, hparts, List.append_nil, List.reverse_reverse, ← hchunks] at hall
  rw [hlabels, hsize, hsize']
  refine ⟨hlaid _ _ ?_ hall, hsmall, ?_⟩
  · rw [hlabels']
    cases lastLabel with
    | none => exact fun _ _ h => h
    | some label =>
        refine within_insert ?_
        rw [hothers label fun hmem => hdisjoint label hmem label (by simp) rfl]
        exact HashMap.getElem?_empty
  · rintro label rfl
    rw [hlabels']
    exact HashMap.getElem?_insert_self

/-- The bytes of instructions reach up to the end of the code. -/
theorem Laid.length {size index position : Nat} {chunks : List Bytes}
    (h : Laid labels wide size index position items chunks) :
    position + chunks.flatten.length = size := by
  induction h with
  | done index => rfl
  | more _ _ _ _ ih =>
      rw [List.flatten_cons, List.length_append, ← Nat.add_assoc]
      exact ih

/-- Every instruction has its bytes. -/
theorem Laid.length_chunks {size index position : Nat} {chunks : List Bytes}
    (h : Laid labels wide size index position items chunks) : chunks.length = items.length := by
  induction h with
  | done index => rfl
  | more _ _ _ _ ih => rw [List.length_cons, List.length_cons, ih]

/-- Every instruction has bytes of its own, if none stands for no bytes. -/
theorem Laid.ne_nil {size index position : Nat} {chunks : List Bytes}
    (h : Laid labels wide size index position items chunks)
    (hbytes : ∀ item ∈ items, item.2 ≠ .plain []) : ∀ chunk ∈ chunks, chunk ≠ [] := by
  induction h with
  | done index => nofun
  | more _ _ hfits _ ih =>
      obtain ⟨hfirst, hothers⟩ := List.forall_mem_cons.mp hbytes
      exact List.forall_mem_cons.mpr ⟨hfits.ne_nil hfirst, ih hothers⟩

/-- A label is where its instruction starts, which is behind the bytes of all before it. -/
theorem Laid.label_place {size index position n : Nat} {chunks : List Bytes} {label : Label}
    {item : CodeItem} (h : Laid labels wide size index position items chunks)
    (hitem : items[n]? = some (some label, item)) :
    labels[label]? = some (position + (chunks.take n).flatten.length) := by
  induction h generalizing n with
  | done index => cases hitem
  | more _ hlabel _ _ ih =>
      cases n with
      | zero =>
          cases hitem
          exact hlabel label rfl
      | succ n =>
          rw [ih hitem, List.take_succ_cons, List.flatten_cons, List.length_append, Nat.add_assoc]

/-- A label on an instruction has its place before the end of the code, if instructions have
bytes. -/
theorem Laid.places {size index position : Nat} {chunks : List Bytes}
    (h : Laid labels wide size index position items chunks)
    (hbytes : ∀ item ∈ items, item.2 ≠ .plain []) :
    ∀ label ∈ placedLabels items, ∃ place : Nat, labels[label]? = some place ∧ place < size := by
  induction h with
  | done index => nofun
  | @more index position label item bytes items chunks hstart hlabel hfits hrest ih =>
      obtain ⟨hfirst, hothers⟩ := List.forall_mem_cons.mp hbytes
      have hlength := List.length_pos_iff.mpr (hfits.ne_nil hfirst)
      have hend := hrest.length
      intro own hown
      rcases mem_placedLabels_cons.mp hown with hown | hown
      · exact ⟨position, hlabel own hown, by omega⟩
      · exact ih hothers own hown

/-- An instruction that is laid out has its bytes where it starts. -/
theorem Laid.fits {size index position n : Nat} {chunks : List Bytes} {label : Option Label}
    {item : CodeItem} (h : Laid labels wide size index position items chunks)
    (hitem : items[n]? = some (label, item)) :
    ∃ bytes, chunks[n]? = some bytes ∧ Fits labels (position + (chunks.take n).flatten.length)
      (wide.contains (index + n)) item bytes := by
  induction h generalizing n with
  | done index => cases hitem
  | @more index position label item' bytes items chunks _ _ hfits _ ih =>
      cases n with
      | zero =>
          cases hitem
          exact ⟨bytes, rfl, hfits⟩
      | succ n =>
          obtain ⟨own, hown, hfits'⟩ := ih hitem
          refine ⟨own, hown, ?_⟩
          rw [Nat.add_assoc, Nat.add_assoc, Nat.add_comm 1 n] at hfits'
          rwa [List.take_succ_cons, List.flatten_cons, List.length_append]

/-- Only labels that stand somewhere have places. -/
theorem mem_of_place {layout : Layout} (h : ofItems items lastLabel = .ok layout)
    (hnodup : (placedLabels items ++ lastLabel.toList).Nodup) {label : Label} {place : Nat}
    (hlabel : layout.labels[label]? = some place) :
    label ∈ placedLabels items ++ lastLabel.toList := by
  obtain ⟨placement, hplace, _, hlabels, _⟩ := settle_eq_ok h
  obtain ⟨before, hbefore, _, _, _, _, hlabels'⟩ := place_eq_ok hplace
  obtain ⟨_, hothers, _⟩ := laid_of_addAll hbefore (fun _ _ => HashMap.getElem?_empty)
    (List.nodup_append.mp hnodup).1
  by_contra hnot
  rw [List.mem_append, not_or] at hnot
  have hnone : before.labels[label]? = none :=
    (hothers label hnot.1).trans HashMap.getElem?_empty
  rw [hlabels, hlabels'] at hlabel
  cases lastLabel with
  | none =>
      rw [hnone] at hlabel
      cases hlabel
  | some last =>
      have hne : ¬ (last == label) = true := by
        rw [beq_iff_eq]
        intro hsame
        exact hnot.2 (hsame ▸ List.mem_singleton.mpr rfl)
      rw [HashMap.getElem?_insert, if_neg hne, hnone] at hlabel
      cases hlabel

end Code

end Layout

end Downlevel
