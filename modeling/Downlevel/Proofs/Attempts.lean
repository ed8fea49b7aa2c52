import Downlevel.Proofs.Starts

/-!
# Attempts at placing instructions

An attempt at placing instructions ends when all distances fit, or at the first jump whose distance
does not.  That jump is marked as wide, and its marks are kept for all attempts that follow.  A jump
that is marked never fails again, so every attempt that is given up uses up one jump, and there is at
most one attempt more than there are jumps.

Padding in front of switches depends on where they stand.  So distances can shrink again when code
grows, and a jump may keep its mark although its distance would fit in the end.

* `GivesUp` — an attempt ends at a jump whose distance does not fit;
* `Attempted` — the marks with which some attempt starts;
* `fillAll_far` — an attempt ends at the first jump whose distance does not fit;
* `settle_enough` — more attempts than there are jumps are not needed;
* `Attempted.exists_givesUp` — every mark was left by an attempt that was given up.
-/

namespace Downlevel

namespace CodeItem

/-- Where an instruction jumps to that has a shorter and a longer form. -/
def jump? : CodeItem → Option Label
  | .branch _ target => some target
  | .jump _ _ target => some target
  | _ => none

/-- How many bytes there is room for at a position, where the places of some labels are known. -/
def room (known : Std.HashMap Label Nat) (position : Nat) (isWide : Bool) : CodeItem → Nat
  | .plain bytes => bytes.length
  | .branch _ _ => if isWide then 8 else 3
  | .jump _ _ target =>
      match known[target]? with
      | some place => if Layout.isShort (Layout.distance position place) && !isWide then 3 else 5
      | none => if isWide then 5 else 3
  | .table _ _ _ targets => 13 + (4 - (position + 1) % 4) % 4 + 4 * targets.length
  | .lookup _ cases => 9 + (4 - (position + 1) % 4) % 4 + 8 * cases.length

/-- At a position an instruction can be filled in: its targets have places, and a jump is marked or its
distance fits into two bytes. -/
def Ready (labels : Std.HashMap Label Nat) (position : Nat) (isWide : Bool) : CodeItem → Prop
  | .plain _ => True
  | .branch _ target | .jump _ _ target => ∃ place : Nat, labels[target]? = some place ∧
      (isWide = true ∨ Layout.isShort (Layout.distance position place) = true)
  | .table fallback _ _ targets =>
      ∀ target ∈ fallback :: targets, ∃ place : Nat, labels[target]? = some place
  | .lookup fallback cases =>
      ∀ target ∈ fallback :: cases.map Prod.snd, ∃ place : Nat, labels[target]? = some place

end CodeItem

/-- A part of an instruction can be filled in: its target has a place, and the distance fits. -/
def Chunk.Ready (labels : Std.HashMap Label Nat) : Chunk → Prop
  | .done _ => True
  | .narrow origin target => ∃ place : Nat, labels[target]? = some place ∧
      Layout.isShort (Layout.distance origin place) = true
  | .wide _ target => ∃ place : Nat, labels[target]? = some place

namespace Layout

open Std (HashMap HashSet)

variable {labels known : HashMap Label Nat} {wide : HashSet Nat}
  {items : List (Option Label × CodeItem)} {lastLabel : Option Label}

/-- With the given marks instructions are placed, but the distance of the jump at an index does not
fit: it is the first for which that is so. -/
def GivesUp (items : List (Option Label × CodeItem)) (lastLabel : Option Label) (wide : HashSet Nat)
    (index : Nat) : Prop :=
  ∃ placement, place wide items lastLabel = .ok placement ∧
    fillAll placement.labels 0 [] placement.placed.reverse = .ok (.inr index)

/-- The marks with which an attempt starts: there are none at first, and each attempt that is given
up leaves one more. -/
inductive Attempted (items : List (Option Label × CodeItem)) (lastLabel : Option Label) :
    HashSet Nat → Prop where
  | first : Attempted items lastLabel ∅
  | again {wide : HashSet Nat} {index : Nat} (before : Attempted items lastLabel wide)
      (far : GivesUp items lastLabel wide index) : Attempted items lastLabel (wide.insert index)

section Far

/-- A distance does not fit into an instruction if it does not fit into one of its parts. -/
theorem fillFrom_eq_tooFar {parts : List Chunk} {done : List Bytes}
    (h : fillFrom labels done parts = .ok .tooFar) :
    ∃ origin target place, .narrow origin target ∈ parts ∧ labels[target]? = some place ∧
      isShort (distance origin place) = false := by
  induction parts generalizing done with
  | nil => cases h
  | cons part parts ih =>
      have hlater : ∀ done', fillFrom labels done' parts = .ok .tooFar →
          ∃ origin target place, .narrow origin target ∈ part :: parts ∧
            labels[target]? = some place ∧ isShort (distance origin place) = false := by
        intro done' hrest
        obtain ⟨origin, target, place, hmem, hfound⟩ := ih hrest
        exact ⟨origin, target, place, List.mem_cons_of_mem _ hmem, hfound⟩
      cases part with
      | done bytes => exact hlater _ h
      | narrow origin target =>
          obtain ⟨place, hplace, hrest⟩ := bind_eq_ok.mp h
          rw [placeOf_eq_ok] at hplace
          split at hrest
          case isTrue => exact hlater _ hrest
          case isFalse hfar =>
            exact ⟨origin, target, place, List.mem_cons_self, hplace, Bool.eq_false_iff.mpr hfar⟩
      | wide origin target =>
          obtain ⟨place, _, hrest⟩ := bind_eq_ok.mp h
          exact hlater _ hrest

/-- The instruction at which filling in distances stops is one of those that are there. -/
theorem fillAll_eq_inr {all : List (List Chunk)} {index found : Nat} {done : List Bytes}
    (h : fillAll labels index done all = .ok (.inr found)) :
    ∃ n parts, found = index + n ∧ all[n]? = some parts ∧
      fillFrom labels [] parts = .ok .tooFar := by
  induction all generalizing index done with
  | nil => cases h
  | cons parts all ih =>
      obtain ⟨filled, hfilled, hrest⟩ := bind_eq_ok.mp h
      cases filled with
      | tooFar =>
          cases hrest
          exact ⟨0, parts, rfl, rfl, hfilled⟩
      | fits bytes =>
          obtain ⟨n, own, hfound, hown, hfar⟩ := ih hrest
          refine ⟨n + 1, own, ?_, hown, hfar⟩
          omega

/-- Only a jump that is not marked has room for a distance in two bytes. -/
theorem narrow_mem_partsOf {position origin : Nat} {isWide : Bool} {item : CodeItem}
    {target : Label} (h : .narrow origin target ∈ partsOf known position isWide item) :
    item.jump? = some target ∧ isWide = false ∧ origin = position := by
  have hlong : ∀ other, Chunk.narrow origin target ≠ longTarget known position other := by
    intro other heq
    unfold longTarget at heq
    split at heq <;> cases heq
  cases item with
  | plain bytes => simp [partsOf] at h
  | branch condition other =>
      cases isWide with
      | true => simp [partsOf] at h
      | false =>
          simp only [partsOf, Bool.false_eq_true, if_false] at h
          repeat' split at h
          all_goals simp_all [CodeItem.jump?]
  | jump opcode wideOpcode other =>
      cases isWide <;> simp only [partsOf] at h <;> repeat' split at h
      all_goals simp_all [CodeItem.jump?]
  | table fallback low high targets =>
      simp only [partsOf, List.mem_cons, List.mem_map] at h
      rcases h with h | h | h | ⟨other, _, h⟩
      · cases h
      · exact absurd h (hlong fallback)
      · cases h
      · exact absurd h.symm (hlong other)
  | lookup fallback cases =>
      simp only [partsOf, List.mem_cons, List.mem_flatMap, List.not_mem_nil, or_false] at h
      rcases h with h | h | h | ⟨c, _, h | h⟩
      · cases h
      · exact absurd h (hlong fallback)
      · cases h
      · cases h
      · exact absurd h (hlong c.2)

/-- The parts of each instruction are those it has where it starts. -/
theorem addAll_parts {placement placement' : Placement}
    (h : Placement.addAll wide items placement = .ok placement') :
    ∃ parts : List (List Chunk), placement'.placed = parts.reverse ++ placement.placed ∧
      (∃ starts, placement'.offsets.toList = placement.offsets.toList ++ starts) ∧
      ∀ (n : Nat) (own : List Chunk), parts[n]? = some own → ∃ label item known start,
        items[n]? = some (label, item) ∧
        placement'.offsets[placement.offsets.size + n]? = some start ∧
        own = partsOf known start (wide.contains (placement.offsets.size + n)) item := by
  induction items generalizing placement with
  | nil =>
      cases h
      exact ⟨[], rfl, ⟨[], (List.append_nil _).symm⟩, nofun⟩
  | cons entry items ih =>
      obtain ⟨label, item⟩ := entry
      obtain ⟨_, _, hrest⟩ := bind_eq_ok.mp h
      let isWide := wide.contains placement.offsets.size
      let added := placement.add isWide label item
      obtain ⟨parts, hplaced, ⟨starts, hstarts⟩, hparts⟩ := ih hrest
      have hpush : added.offsets = placement.offsets.push placement.size := rfl
      have hsize : added.offsets.size = placement.offsets.size + 1 := Array.size_push _
      refine ⟨partsOf added.labels placement.size isWide item :: parts, ?_,
        ⟨placement.size :: starts, ?_⟩, fun n own hown => ?_⟩
      · rw [hplaced, List.reverse_cons, List.append_assoc]
        rfl
      · rw [hstarts, hpush, Array.toList_push, List.append_assoc]
        rfl
      · cases n with
        | zero =>
            cases hown
            refine ⟨label, item, added.labels, placement.size, rfl, ?_, rfl⟩
            rw [← Array.getElem?_toList, hstarts, hpush, Array.toList_push, List.append_assoc,
              List.getElem?_append_right (by simp)]
            simp
        | succ n =>
            obtain ⟨label', item', known, start, hitem, hstart, hown⟩ := hparts n own hown
            rw [hsize, Nat.add_assoc, Nat.add_comm 1 n] at hstart hown
            exact ⟨label', item', known, start, hitem, hstart, hown⟩

/-- **An attempt is only given up at a jump**, which is not marked and whose distance does not fit
into two bytes. -/
theorem GivesUp.far {index : Nat} (h : GivesUp items lastLabel wide index) :
    ∃ label item target placement start place, items[index]? = some (label, item) ∧
      item.jump? = some target ∧ wide.contains index = false ∧
      Layout.place wide items lastLabel = .ok placement ∧
      placement.offsets[index]? = some start ∧ placement.labels[target]? = some place ∧
      isShort (distance start place) = false := by
  obtain ⟨placement, hplace, hfill⟩ := h
  obtain ⟨before, hbefore, _, hplaced, hoffsets, _, _⟩ := place_eq_ok hplace
  obtain ⟨parts, hparts, _, hall⟩ := addAll_parts hbefore
  rw [hplaced, hparts, List.append_nil, List.reverse_reverse] at hfill
  obtain ⟨n, own, hindex, hown, hfar⟩ := fillAll_eq_inr hfill
  obtain rfl : index = n := by omega
  obtain ⟨label, item, known, start, hitem, hstart, rfl⟩ := hall index own hown
  have hzero : ({} : Placement).offsets.size + index = index := Nat.zero_add _
  rw [hzero] at hstart hfar
  obtain ⟨origin, target, place, hmem, htarget, hshort⟩ := fillFrom_eq_tooFar hfar
  obtain ⟨hjump, hwide, rfl⟩ := narrow_mem_partsOf hmem
  exact ⟨label, item, target, placement, origin, place, hitem, hjump, hwide, hplace,
    hoffsets ▸ hstart, htarget, hshort⟩

end Far

section Room

variable {position : Nat} {isWide : Bool}

/-- There are four bytes for a distance in a switch. -/
theorem size_longTarget (target : Label) : (longTarget known position target).size = 4 := by
  unfold longTarget
  split <;> rfl

/-- Adding up the sizes of parts can start anywhere. -/
theorem foldl_size_start (parts : List Chunk) (total : Nat) :
    parts.foldl (fun total part => total + part.size) total =
      total + parts.foldl (fun total part => total + part.size) 0 := by
  induction parts generalizing total with
  | nil => rfl
  | cons part parts ih =>
      rw [List.foldl_cons, List.foldl_cons, ih, ih (0 + part.size), Nat.zero_add, Nat.add_assoc]

/-- The distances of a table take four bytes each. -/
theorem foldl_size_targets (targets : List Label) (total : Nat) :
    (targets.map (longTarget known position)).foldl (fun total part => total + part.size) total =
      total + 4 * targets.length := by
  induction targets generalizing total with
  | nil => rfl
  | cons target targets ih =>
      rw [List.map_cons, List.foldl_cons, ih, size_longTarget, List.length_cons]
      omega

/-- The keys of a switch, with their distances, take eight bytes each. -/
theorem foldl_size_cases (cases : List (Int32 × Label)) (total : Nat) :
    (cases.flatMap fun c => [Chunk.done (Bytes.ofI32 c.1), longTarget known position c.2]).foldl
      (fun total part => total + part.size) total = total + 8 * cases.length := by
  induction cases generalizing total with
  | nil => rfl
  | cons c cases ih =>
      have hkey : (Chunk.done (Bytes.ofI32 c.1)).size = 4 := rfl
      rw [List.flatMap_cons, List.foldl_append, ih, List.foldl_cons, List.foldl_cons,
        List.foldl_nil, size_longTarget, hkey, List.length_cons]
      omega

/-- An instruction takes the bytes that there is room for. -/
theorem foldl_size_partsOf (item : CodeItem) :
    (partsOf known position isWide item).foldl (fun total part => total + part.size) 0 =
      item.room known position isWide := by
  have hpadding : (padding position).length = (4 - (position + 1) % 4) % 4 := List.length_replicate
  cases item with
  | plain bytes => simp [partsOf, CodeItem.room, Chunk.size]
  | branch condition target =>
      cases isWide with
      | true => rfl
      | false =>
          simp only [partsOf, CodeItem.room, Bool.false_eq_true, if_false]
          repeat' split
          all_goals rfl
  | jump opcode wideOpcode target =>
      simp only [partsOf, CodeItem.room]
      cases known[target]? with
      | none => cases isWide <;> rfl
      | some place =>
          show List.foldl _ 0 (if _ then _ else _) = if _ then _ else _
          split <;> rfl
  | table fallback low high targets =>
      have hopcode : (Chunk.done (0xaa :: padding position)).size = (padding position).length + 1 :=
        rfl
      have hbounds : (Chunk.done (Bytes.ofI32 low ++ Bytes.ofI32 high)).size = 8 := rfl
      simp only [partsOf, List.foldl_cons, size_longTarget, foldl_size_targets, hbounds, hopcode,
        hpadding, CodeItem.room]
      omega
  | lookup fallback cases =>
      have hopcode : (Chunk.done (0xab :: padding position)).size = (padding position).length + 1 :=
        rfl
      have hcount : (Chunk.done (Bytes.ofU32 cases.length.toUInt32)).size = 4 := rfl
      simp only [partsOf, List.foldl_cons, size_longTarget, foldl_size_cases, hcount, hopcode,
        hpadding, CodeItem.room]
      omega

/-- One more instruction is placed where the others end. -/
theorem Placement.add_eq (placement : Placement) (isWide : Bool) (label : Option Label)
    (item : CodeItem) :
    placement.add isWide label item =
      let labels := label.elim placement.labels (placement.labels.insert · placement.size)
      ⟨partsOf labels placement.size isWide item :: placement.placed,
        placement.offsets.push placement.size, labels,
        placement.size + item.room labels placement.size isWide⟩ := by
  unfold Placement.add
  cases label <;> simp only [foldl_size_start _ placement.size, foldl_size_partsOf, Option.elim]

end Room

section Ready

variable {position : Nat} {isWide : Bool}

/-- Parts that can be filled in have bytes. -/
theorem fillFrom_ready {parts : List Chunk} (h : ∀ part ∈ parts, part.Ready labels)
    (done : List Bytes) : ∃ bytes, fillFrom labels done parts = .ok (.fits bytes) := by
  induction parts generalizing done with
  | nil => exact ⟨_, rfl⟩
  | cons part parts ih =>
      obtain ⟨hfirst, hothers⟩ := List.forall_mem_cons.mp h
      cases part with
      | done bytes => exact ih hothers _
      | narrow origin target =>
          obtain ⟨place, hplace, hnear⟩ := hfirst
          obtain ⟨bytes, hbytes⟩ := ih hothers (short (distance origin place) :: done)
          refine ⟨bytes, bind_eq_ok.mpr ⟨place, placeOf_eq_ok.mpr hplace, ?_⟩⟩
          rw [if_pos hnear, hbytes]
      | wide origin target =>
          obtain ⟨place, hplace⟩ := hfirst
          obtain ⟨bytes, hbytes⟩ := ih hothers (long (distance origin place) :: done)
          exact ⟨bytes, bind_eq_ok.mpr ⟨place, placeOf_eq_ok.mpr hplace, hbytes⟩⟩

/-- Instructions whose parts can be filled in have bytes. -/
theorem fillAll_ready {all : List (List Chunk)}
    (h : ∀ parts ∈ all, ∀ part ∈ parts, part.Ready labels) (index : Nat) (done : List Bytes) :
    ∃ chunks, fillAll labels index done all = .ok (.inl chunks) := by
  induction all generalizing index done with
  | nil => exact ⟨_, rfl⟩
  | cons parts all ih =>
      obtain ⟨hfirst, hothers⟩ := List.forall_mem_cons.mp h
      obtain ⟨bytes, hbytes⟩ := fillFrom_ready hfirst []
      obtain ⟨chunks, hchunks⟩ := ih hothers (index + 1) (bytes :: done)
      exact ⟨chunks, bind_eq_ok.mpr ⟨_, hbytes, hchunks⟩⟩

/-- Filling in distances stops at the first jump for which one does not fit. -/
theorem fillAll_far {all : List (List Chunk)} (n origin place : Nat) (opcode : Bytes)
    (target : Label)
    (h : ∀ m < n, ∀ parts, all[m]? = some parts → ∀ part ∈ parts, part.Ready labels)
    (hjump : all[n]? = some [.done opcode, .narrow origin target])
    (htarget : labels[target]? = some place) (hfar : isShort (distance origin place) = false)
    (index : Nat) (done : List Bytes) :
    fillAll labels index done all = .ok (.inr (index + n)) := by
  induction n generalizing all index done with
  | zero =>
      obtain ⟨behind, rfl⟩ : ∃ behind, all = [.done opcode, .narrow origin target] :: behind := by
        cases all with
        | nil => cases hjump
        | cons parts all => exact ⟨all, by cases hjump; rfl⟩
      refine bind_eq_ok.mpr ⟨.tooFar, bind_eq_ok.mpr ⟨place, placeOf_eq_ok.mpr htarget, ?_⟩, rfl⟩
      rw [if_neg (Bool.eq_false_iff.mp hfar)]
      rfl
  | succ n ih =>
      cases all with
      | nil => cases hjump
      | cons parts all =>
          obtain ⟨bytes, hbytes⟩ := fillFrom_ready (h 0 (Nat.succ_pos n) parts rfl) []
          refine bind_eq_ok.mpr ⟨_, hbytes, ?_⟩
          rw [Nat.add_comm n, ← Nat.add_assoc]
          exact ih (fun m hm => h (m + 1) (Nat.succ_lt_succ hm)) hjump (index + 1) (bytes :: done)

/-- A distance in a switch can be filled in if its target has a place. -/
theorem ready_longTarget {target : Label} (h : ∃ place : Nat, labels[target]? = some place) :
    (longTarget known position target).Ready labels := by
  unfold longTarget
  split
  next => trivial
  next => exact h

/-- All parts of an instruction can be filled in if it can. -/
theorem ready_partsOf {item : CodeItem} (h : item.Ready labels position isWide) :
    ∀ part ∈ partsOf known position isWide item, part.Ready labels := by
  have hdone (bytes : Bytes) : (Chunk.done bytes).Ready labels := trivial
  cases item with
  | plain bytes => exact List.forall_mem_singleton.mpr (hdone _)
  | branch condition target =>
      obtain ⟨place, hplace, hnear⟩ := h
      cases isWide with
      | true => simp [partsOf, Chunk.Ready, hplace]
      | false =>
          have hready : (Chunk.narrow position target).Ready labels :=
            ⟨place, hplace, hnear.resolve_left Bool.false_ne_true⟩
          simp only [partsOf, Bool.false_eq_true, if_false]
          repeat' split
          all_goals simp [hdone, hready]
  | jump opcode wideOpcode target =>
      obtain ⟨place, hplace, hnear⟩ := h
      cases isWide with
      | true =>
          simp only [partsOf]
          repeat' split
          all_goals simp_all [Chunk.Ready]
      | false =>
          have hready : (Chunk.narrow position target).Ready labels :=
            ⟨place, hplace, hnear.resolve_left Bool.false_ne_true⟩
          simp only [partsOf, Bool.false_eq_true, if_false]
          repeat' split
          all_goals simp [hdone, hready]
  | table fallback low high targets =>
      obtain ⟨hfallback, htargets⟩ := List.forall_mem_cons.mp h
      simp only [partsOf, List.forall_mem_cons, List.forall_mem_map]
      exact ⟨hdone _, ready_longTarget hfallback, hdone _,
        fun target htarget => ready_longTarget (htargets target htarget)⟩
  | lookup fallback cases =>
      obtain ⟨hfallback, hcases⟩ := List.forall_mem_cons.mp h
      simp only [partsOf, List.forall_mem_cons, List.forall_mem_flatMap]
      exact ⟨hdone _, ready_longTarget hfallback, hdone _, fun c hc => ⟨hdone _,
        ready_longTarget (hcases c.2 (List.mem_map_of_mem hc)), List.forall_mem_nil _⟩⟩

/-- An attempt that is given up is followed by another one, with one more mark. -/
theorem GivesUp.settle {index : Nat} (h : GivesUp items lastLabel wide index) (attempts : Nat) :
    settle items lastLabel (attempts + 1) wide =
      settle items lastLabel attempts (wide.insert index) := by
  obtain ⟨placement, hplace, hfill⟩ := h
  rw [Layout.settle, hplace]
  show (fillAll placement.labels 0 [] placement.placed.reverse >>= _) = _
  rw [hfill]
  rfl

end Ready

section Bound

/-- How many jumps from an index on are not marked. -/
def unmarked (wide : HashSet Nat) : Nat → List (Option Label × CodeItem) → Nat
  | _, [] => 0
  | index, (_, item) :: items =>
      (if item.jump?.isSome && !wide.contains index then 1 else 0) + unmarked wide (index + 1) items

/-- How many jumps there are. -/
def jumps (items : List (Option Label × CodeItem)) : Nat :=
  items.countP fun entry => entry.2.jump?.isSome

/-- At first no jump is marked. -/
theorem unmarked_empty (index : Nat) : unmarked ∅ index items = jumps items := by
  induction items generalizing index with
  | nil => rfl
  | cons entry items ih =>
      obtain ⟨label, item⟩ := entry
      rw [unmarked, ih, jumps, jumps, List.countP_cons, Nat.add_comm]
      simp

/-- One more mark does not leave more jumps without one. -/
theorem unmarked_insert_le (mark index : Nat) :
    unmarked (wide.insert mark) index items ≤ unmarked wide index items := by
  induction items generalizing index with
  | nil => exact Nat.le_refl _
  | cons entry items ih =>
      obtain ⟨label, item⟩ := entry
      have hrest := ih (index + 1)
      simp only [unmarked, HashSet.contains_insert]
      cases item.jump?.isSome <;> cases wide.contains index <;> cases mark == index <;> simp <;> omega

/-- A mark on a jump that had none leaves fewer jumps without one. -/
theorem unmarked_insert_lt {index n : Nat} {label : Option Label} {item : CodeItem}
    (hitem : items[n]? = some (label, item)) (hjump : item.jump?.isSome)
    (hmark : wide.contains (index + n) = false) :
    unmarked (wide.insert (index + n)) index items < unmarked wide index items := by
  induction items generalizing index n with
  | nil => cases hitem
  | cons entry items ih =>
      cases n with
      | zero =>
          cases hitem
          have hrest : unmarked (wide.insert index) (index + 1) items ≤
              unmarked wide (index + 1) items := unmarked_insert_le index (index + 1)
          simp only [Nat.add_zero] at hmark ⊢
          simp only [unmarked, hjump, hmark, HashSet.contains_insert_self]
          simp
          omega
      | succ n =>
          obtain ⟨label', item'⟩ := entry
          rw [Nat.add_comm n 1, ← Nat.add_assoc] at hmark ⊢
          have hrest := ih hitem hmark
          simp only [unmarked, HashSet.contains_insert]
          cases item'.jump?.isSome <;> cases wide.contains index <;>
            cases index + 1 + n == index <;> simp <;> omega

/-- Every attempt that is given up leaves fewer jumps without a mark. -/
theorem GivesUp.unmarked_lt {index : Nat} (h : GivesUp items lastLabel wide index) :
    unmarked (wide.insert index) 0 items < unmarked wide 0 items := by
  obtain ⟨label, item, target, _, _, _, hitem, hjump, hmark, _⟩ := h.far
  have hindex : 0 + index = index := Nat.zero_add index
  rw [← hindex]
  exact unmarked_insert_lt hitem (by rw [hjump]; rfl) (by rw [hindex]; exact hmark)

/-- As long as there are more attempts than jumps without a mark, their number does not matter. -/
theorem settle_eq {attempts attempts' : Nat} (h : unmarked wide 0 items < attempts)
    (h' : unmarked wide 0 items < attempts') :
    settle items lastLabel attempts wide = settle items lastLabel attempts' wide := by
  induction attempts generalizing attempts' wide with
  | zero => exact absurd h (Nat.not_lt_zero _)
  | succ attempts ih =>
      obtain ⟨attempts', rfl⟩ : ∃ n, attempts' = n + 1 := ⟨attempts' - 1, by omega⟩
      unfold settle
      cases hplace : place wide items lastLabel with
      | error error => rfl
      | ok placement =>
      show (fillAll placement.labels 0 [] placement.placed.reverse >>= _) =
        (fillAll placement.labels 0 [] placement.placed.reverse >>= _)
      cases hfilled : fillAll placement.labels 0 [] placement.placed.reverse with
      | error error => rfl
      | ok filled =>
      cases filled with
      | inl chunks => rfl
      | inr index =>
          have hlt := GivesUp.unmarked_lt ⟨placement, hplace, hfilled⟩
          exact ih (by omega) (by omega)

/-- **More attempts than there are jumps are not needed**: one more than that is enough. -/
theorem settle_enough {attempts : Nat} (h : jumps items < attempts) :
    settle items lastLabel attempts ∅ = ofItems items lastLabel := by
  have hall : jumps items ≤ items.length := List.countP_le_length
  have hnone : unmarked ∅ 0 items = jumps items := unmarked_empty 0
  exact settle_eq (by omega) (by omega)

end Bound

section Marks

/-- A layout that is settled was settled with marks that attempts left. -/
theorem settle_attempted {attempts : Nat} {layout : Layout}
    (h : settle items lastLabel attempts wide = .ok layout) (hwide : Attempted items lastLabel wide) :
    Attempted items lastLabel layout.wide := by
  induction attempts generalizing wide with
  | zero => cases h
  | succ attempts ih =>
      obtain ⟨placement, hplace, hrest⟩ := bind_eq_ok.mp h
      obtain ⟨filled, hfilled, hrest⟩ := bind_eq_ok.mp hrest
      cases filled with
      | inl chunks =>
          cases hrest
          exact hwide
      | inr index => exact ih hrest (.again hwide ⟨placement, hplace, hfilled⟩)

/-- Every mark was left by an attempt. -/
theorem Attempted.exists_givesUp {index : Nat} (h : Attempted items lastLabel wide)
    (hmark : wide.contains index = true) :
    ∃ before, Attempted items lastLabel before ∧ GivesUp items lastLabel before index := by
  induction h with
  | first => simp at hmark
  | @again wide last hbefore hfar ih =>
      rw [HashSet.contains_insert, Bool.or_eq_true] at hmark
      rcases hmark with hsame | hmark
      · obtain rfl := eq_of_beq hsame
        exact ⟨wide, hbefore, hfar⟩
      · exact ih hmark

end Marks

end Layout

end Downlevel
