import Mathlib.Order.Nat
import Downlevel.Encode.Code
import Downlevel.Proofs.Starts

/-!
# Instructions that are not executed

Where instructions are marked as executed or not, those that are not make up runs.  Each run is replaced
in the bytes of the code and taken out of ranges of offsets.  This file says what that comes to, for any
marks; which instructions are marked does not matter here.

* `Encode.mem_deadRuns` — the runs that are found are the longest ones;
* `Encode.liveBytes_keeps`, `Encode.liveBytes_replaces` — the bytes of an instruction that is executed,
  and of a run of others;
* `Encode.subtractAll_spec` — what is left of a range without some parts of it.
-/

namespace Downlevel

namespace Encode

/-! ## Runs of instructions -/

/-- A run of instructions that are not executed, which is as long as possible: from an index up to,
but not including, another one. -/
structure DeadRun (live : List Bool) (run : Nat × Nat) : Prop where
  lt : run.1 < run.2
  le : run.2 ≤ live.length
  dead : ∀ index, run.1 ≤ index → index < run.2 → live[index]? = some false
  before : ∀ index, run.1 = index + 1 → live[index]? = some true
  behind : run.2 < live.length → live[run.2]? = some true

section Runs

variable {front rest : List Bool} {first : Nat} {run : Nat × Nat}

/-- From an index on nothing in `front` is executed, and it is the first such index. -/
structure Pending (front : List Bool) (first : Nat) : Prop where
  le : first ≤ front.length
  dead : ∀ index, first ≤ index → index < front.length → front[index]? = some false
  before : ∀ index, first = index + 1 → front[index]? = some true

/-- An instruction that is not executed makes the run longer. -/
theorem Pending.push (h : Pending front first) : Pending (front ++ [false]) first where
  le := by
    rw [List.length_append]
    exact h.le.trans (Nat.le_add_right _ _)
  dead index hge hlt := by
    rw [List.length_append, List.length_singleton] at hlt
    by_cases hin : index < front.length
    · rw [List.getElem?_append_left hin]
      exact h.dead index hge hin
    · obtain rfl : index = front.length := by omega
      exact List.getElem?_concat_length
  before index hindex := by
    have hle := h.le
    rw [List.getElem?_append_left (by omega)]
    exact h.before index hindex

/-- Behind an instruction that is executed no run has begun. -/
theorem pending_behind (front : List Bool) : Pending (front ++ [true]) (front ++ [true]).length where
  le := le_refl _
  dead index hge hlt := absurd hlt (Nat.not_lt.mpr hge)
  before index hindex := by
    rw [List.length_append, List.length_singleton] at hindex
    obtain rfl : index = front.length := by omega
    exact List.getElem?_concat_length

/-- A run that has begun ends where the next instruction is executed, or where there is none. -/
theorem Pending.run_iff (h : Pending front first) (hlt : first < front.length)
    (hrest : ∀ flag, rest.head? = some flag → flag = true) :
    DeadRun (front ++ rest) run ∧ first ≤ run.1 ∧ run.1 < front.length ↔
      run = (first, front.length) := by
  have hdead : ∀ index, first ≤ index → index < front.length →
      (front ++ rest)[index]? = some false := by
    intro index hge hindex
    rw [List.getElem?_append_left hindex]
    exact h.dead index hge hindex
  constructor
  · intro hrun
    obtain ⟨hrun, hge, hin⟩ := hrun
    have hfirst : run.1 = first := by
      by_contra hne
      have hlast := hrun.before (run.1 - 1) (by omega)
      cases (hdead (run.1 - 1) (by omega) (by omega)).symm.trans hlast
    have hends : run.2 = front.length := by
      have hnonempty := hrun.lt
      have hle := hrun.le
      rw [List.length_append] at hle
      by_contra hne
      by_cases hless : run.2 < front.length
      · have hlive := hrun.behind (by rw [List.length_append]; omega)
        cases (hdead run.2 (by omega) hless).symm.trans hlive
      · have hnext := hrun.dead front.length (by omega) (by omega)
        rw [List.getElem?_append_right (le_refl _), Nat.sub_self, ← List.head?_eq_getElem?] at hnext
        cases hrest false hnext
    exact Prod.ext hfirst hends
  · intro hrun
    subst hrun
    refine ⟨⟨hlt, ?_, hdead, fun index hindex => ?_, fun hmore => ?_⟩, le_refl _, hlt⟩
    · rw [List.length_append]
      exact Nat.le_add_right _ _
    · have hindex : first = index + 1 := hindex
      rw [List.getElem?_append_left (by omega)]
      exact h.before index hindex
    · rw [List.getElem?_append_right (le_refl _), Nat.sub_self, ← List.head?_eq_getElem?]
      cases rest with
      | nil => simp at hmore
      | cons flag rest => rw [hrest flag rfl, List.head?_cons]

/-- Behind the last instruction, the run that has begun is the only one that is left. -/
theorem Pending.at_end {start : Option Nat} (hstart : Pending front (start.getD front.length))
    (hlt : ∀ first, start = some first → first < front.length) :
    run ∈ deadRuns front.length start [] ↔
      DeadRun (front ++ []) run ∧ start.getD front.length ≤ run.1 := by
  have hin : DeadRun (front ++ []) run → run.1 < front.length := by
    intro hrun
    have hnonempty := hrun.lt
    have hle := hrun.le
    rw [List.append_nil] at hle
    omega
  unfold deadRuns
  cases start with
  | none =>
      constructor
      · intro hmem
        cases hmem
      · intro hrun
        exact absurd (hin hrun.1) (Nat.not_lt.mpr hrun.2)
  | some first =>
      have hiff : DeadRun (front ++ []) run ∧ first ≤ run.1 ∧ run.1 < front.length ↔
          run = (first, front.length) := hstart.run_iff (hlt first rfl) nofun
      rw [List.mem_singleton, ← hiff]
      constructor
      · intro hrun
        exact ⟨hrun.1, hrun.2.1⟩
      · intro hrun
        exact ⟨hrun.1, hrun.2, hin hrun.1⟩

/-- No run begins with an instruction that is executed. -/
theorem DeadRun.ne_executed (h : DeadRun (front ++ true :: rest) run) : run.1 ≠ front.length := by
  intro heq
  have hdead := h.dead front.length (le_of_eq heq) (heq ▸ h.lt)
  rw [List.getElem?_append_right (le_refl _), Nat.sub_self] at hdead
  cases hdead

/-- At an instruction that is executed, the run that has begun comes to its end; the other ones begin
behind the instruction. -/
theorem Pending.at_executed {start : Option Nat} (hstart : Pending front (start.getD front.length))
    (hlt : ∀ first, start = some first → first < front.length)
    (hlater : run ∈ deadRuns (front.length + 1) none rest ↔
      DeadRun (front ++ true :: rest) run ∧ front.length + 1 ≤ run.1) :
    run ∈ deadRuns front.length start (true :: rest) ↔
      DeadRun (front ++ true :: rest) run ∧ start.getD front.length ≤ run.1 := by
  have hbehind : DeadRun (front ++ true :: rest) run ∧ front.length ≤ run.1 ↔
      run ∈ deadRuns (front.length + 1) none rest := by
    rw [hlater]
    constructor
    · intro hrun
      exact ⟨hrun.1, Nat.lt_of_le_of_ne hrun.2 hrun.1.ne_executed.symm⟩
    · intro hrun
      exact ⟨hrun.1, Nat.le_of_succ_le hrun.2⟩
  unfold deadRuns
  cases start with
  | none => exact hbehind.symm
  | some first =>
      have hfirst := hlt first rfl
      have hiff : DeadRun (front ++ true :: rest) run ∧ first ≤ run.1 ∧
          run.1 < front.length ↔ run = (first, front.length) :=
        hstart.run_iff hfirst fun flag hflag => (Option.some.inj hflag).symm
      show run ∈ (first, front.length) :: deadRuns (front.length + 1) none rest ↔ _
      rw [List.mem_cons, ← hiff, ← hbehind]
      constructor
      · intro hrun
        rcases hrun with hrun | hrun
        · exact ⟨hrun.1, hrun.2.1⟩
        · exact ⟨hrun.1, hfirst.le.trans hrun.2⟩
      · intro hrun
        by_cases hin : run.1 < front.length
        · exact .inl ⟨hrun.1, hrun.2, hin⟩
        · exact .inr ⟨hrun.1, Nat.le_of_not_lt hin⟩

/-- **The runs that are found are those that there are.** -/
theorem mem_deadRuns_from {start : Option Nat} (hstart : Pending front (start.getD front.length))
    (hlt : ∀ first, start = some first → first < front.length) :
    run ∈ deadRuns front.length start rest ↔
      DeadRun (front ++ rest) run ∧ start.getD front.length ≤ run.1 := by
  induction rest generalizing front start with
  | nil => exact hstart.at_end hlt
  | cons flag rest ih =>
      have hsplit : front ++ flag :: rest = front ++ [flag] ++ rest := by
        rw [List.append_assoc]
        rfl
      have hnext : front.length + 1 = (front ++ [flag]).length := by
        rw [List.length_append, List.length_singleton]
      cases flag with
      | false =>
          have hsame : (some (start.getD front.length)).getD (front ++ [false]).length =
              start.getD front.length := rfl
          unfold deadRuns
          rw [hnext, ih hstart.push ?_, hsplit, hsame]
          intro first hfirst
          cases hfirst
          exact hnext ▸ Nat.lt_succ_of_le hstart.le
      | true =>
          have hbehind : Pending (front ++ [true])
              ((none : Option Nat).getD (front ++ [true]).length) := pending_behind front
          refine hstart.at_executed hlt ?_
          rw [hnext, ih hbehind (fun _ hnone => nomatch hnone), hsplit, Option.getD_none]

/-- The runs of instructions that are not executed are found, and nothing else. -/
theorem mem_deadRuns {live : List Bool} : run ∈ deadRuns 0 none live ↔ DeadRun live run := by
  have hstart : Pending [] ((none : Option Nat).getD ([] : List Bool).length) :=
    ⟨le_refl _, nofun, nofun⟩
  have hiff : run ∈ deadRuns 0 none live ↔ DeadRun ([] ++ live) run ∧ 0 ≤ run.1 :=
    mem_deadRuns_from hstart fun _ hnone => nomatch hnone
  exact hiff.trans (and_iff_left (Nat.zero_le _))

end Runs

/-! ## Bytes -/

section Neutral

variable {pairs front rest : List (Bool × Bytes)} {dead : Nat}

/-- Bytes behind others do not depend on them. -/
theorem liveBytes_done (dead : Nat) (done : List Bytes) (pairs : List (Bool × Bytes)) :
    liveBytes dead done pairs = done.reverse.flatten ++ liveBytes dead [] pairs := by
  induction pairs generalizing dead done with
  | nil => simp [liveBytes]
  | cons pair rest ih =>
      obtain ⟨flag, bytes⟩ := pair
      cases flag with
      | false => exact ih _ _
      | true =>
          unfold liveBytes
          rw [ih 0 (bytes :: deadBytes dead :: done), ih 0 [bytes, deadBytes dead]]
          simp

/-- An instruction that is executed ends the run in front of it. -/
theorem liveBytes_live (dead : Nat) (bytes : Bytes) (rest : List (Bool × Bytes)) :
    liveBytes dead [] ((true, bytes) :: rest) =
      deadBytes dead ++ bytes ++ liveBytes 0 [] rest := by
  rw [liveBytes, liveBytes_done]
  simp

/-- As many bytes are written for instructions that are not executed as they had. -/
theorem length_deadBytes (n : Nat) : (deadBytes n).length = n := by
  unfold deadBytes
  split
  next hzero => exact hzero.symm
  next hpos =>
    rw [List.length_append, List.length_replicate, List.length_singleton]
    omega

/-- As many bytes are written as there are. -/
theorem length_liveBytes (dead : Nat) (pairs : List (Bool × Bytes)) :
    (liveBytes dead [] pairs).length = dead + (pairs.map Prod.snd).flatten.length := by
  induction pairs generalizing dead with
  | nil => simp [liveBytes, length_deadBytes]
  | cons pair rest ih =>
      obtain ⟨flag, bytes⟩ := pair
      rw [List.map_cons, List.flatten_cons, List.length_append]
      cases flag with
      | false =>
          rw [liveBytes, ih]
          exact Nat.add_assoc _ _ _
      | true =>
          rw [liveBytes_live, List.length_append, List.length_append, length_deadBytes, ih]
          show dead + bytes.length + (0 + _) = dead + (bytes.length + _)
          omega

/-- Bytes can be cut where an instruction follows that is executed, or none. -/
theorem liveBytes_append (hrest : ∀ pair, rest.head? = some pair → pair.1 = true) :
    liveBytes dead [] (front ++ rest) = liveBytes dead [] front ++ liveBytes 0 [] rest := by
  induction front generalizing dead with
  | nil =>
      cases rest with
      | nil => simp [liveBytes, deadBytes]
      | cons pair rest =>
          obtain ⟨flag, bytes⟩ := pair
          obtain rfl : flag = true := hrest _ rfl
          rw [List.nil_append, liveBytes_live, liveBytes_live]
          simp [liveBytes, deadBytes]
  | cons pair front ih =>
      obtain ⟨flag, bytes⟩ := pair
      cases flag with
      | false => exact ih
      | true =>
          rw [List.cons_append, liveBytes_live, liveBytes_live, ih]
          simp

/-- Bytes can be cut behind an instruction that is executed, as well as in front of one. -/
theorem liveBytes_cut {index : Nat}
    (h : (∀ last pair, index = last + 1 → pairs[last]? = some pair → pair.1 = true) ∨
      ∀ pair, pairs[index]? = some pair → pair.1 = true) :
    liveBytes 0 [] pairs =
      liveBytes 0 [] (pairs.take index) ++ liveBytes 0 [] (pairs.drop index) := by
  have hfront : ∀ n, (∀ pair, pairs[n]? = some pair → pair.1 = true) →
      liveBytes 0 [] pairs = liveBytes 0 [] (pairs.take n) ++ liveBytes 0 [] (pairs.drop n) := by
    intro n hnext
    rw [← liveBytes_append, List.take_append_drop]
    intro pair hpair
    rw [List.head?_drop] at hpair
    exact hnext pair hpair
  rcases h with hbehind | hnext
  · cases index with
    | zero => rfl
    | succ last =>
        cases hpair : pairs[last]? with
        | none =>
            have hle : pairs.length ≤ last + 1 := (List.getElem?_eq_none_iff.mp hpair).trans
              (Nat.le_succ last)
            rw [List.take_of_length_le hle, List.drop_eq_nil_of_le hle]
            simp [liveBytes, deadBytes]
        | some pair =>
            have hlive := hbehind last pair rfl hpair
            obtain ⟨flag, bytes⟩ := pair
            obtain rfl : flag = true := hlive
            obtain ⟨hlt, hget⟩ := List.getElem?_eq_some_iff.mp hpair
            rw [hfront last fun other hother => by
              cases hpair.symm.trans hother
              rfl]
            rw [List.drop_eq_getElem_cons hlt, hget, liveBytes_live, List.take_add_one,
              hpair, Option.toList_some, liveBytes_append (by simp), liveBytes_live]
            simp [liveBytes, deadBytes]
  · exact hfront index hnext

/-- Instructions none of which is executed are replaced all at once. -/
theorem liveBytes_dead (h : ∀ pair ∈ pairs, pair.1 = false) :
    liveBytes dead [] pairs = deadBytes (dead + (pairs.map Prod.snd).flatten.length) := by
  induction pairs generalizing dead with
  | nil => simp [liveBytes]
  | cons pair rest ih =>
      obtain ⟨flag, bytes⟩ := pair
      obtain ⟨rfl, hrest⟩ := List.forall_mem_cons.mp h
      rw [liveBytes, ih hrest, List.map_cons, List.flatten_cons, List.length_append, Nat.add_assoc]

variable {live : List Bool} {chunks : List Bytes} (hlength : live.length = chunks.length)

include hlength

/-- The bytes of instructions in front of an index, whether they are executed or not. -/
theorem map_snd_take (index : Nat) :
    ((live.zip chunks).take index).map Prod.snd = chunks.take index := by
  rw [List.map_take, List.map_snd_zip hlength.ge]

/-- **An instruction that is executed keeps its bytes**, where they are. -/
theorem liveBytes_keeps {index : Nat} {chunk : Bytes} (hlive : live[index]? = some true)
    (hchunk : chunks[index]? = some chunk) :
    HasAt (liveBytes 0 [] (live.zip chunks)) (chunks.take index).flatten.length chunk := by
  have hpair : (live.zip chunks)[index]? = some (true, chunk) :=
    List.getElem?_zip_eq_some.mpr ⟨hlive, hchunk⟩
  obtain ⟨hlt, hget⟩ := List.getElem?_eq_some_iff.mp hpair
  refine ⟨liveBytes 0 [] ((live.zip chunks).take index),
    liveBytes 0 [] ((live.zip chunks).drop (index + 1)), ?_, ?_⟩
  · rw [liveBytes_cut (.inr fun pair hother => by
      cases hpair.symm.trans hother
      rfl), List.drop_eq_getElem_cons hlt, hget, liveBytes_live]
    simp [deadBytes]
  · rw [length_liveBytes, map_snd_take hlength, Nat.zero_add]

/-- **A run of instructions that are not executed is replaced** in the same number of bytes. -/
theorem liveBytes_replaces {run : Nat × Nat} (hrun : DeadRun live run) :
    ∃ n, (chunks.take run.2).flatten.length = (chunks.take run.1).flatten.length + n ∧
      HasAt (liveBytes 0 [] (live.zip chunks)) (chunks.take run.1).flatten.length
        (deadBytes n) := by
  have hflag : ∀ (index : Nat) (pair : Bool × Bytes), (live.zip chunks)[index]? = some pair →
      live[index]? = some pair.1 :=
    fun index pair hpair => (List.getElem?_zip_eq_some.mp hpair).1
  have hends : liveBytes 0 [] (live.zip chunks) = liveBytes 0 [] ((live.zip chunks).take run.2) ++
      liveBytes 0 [] ((live.zip chunks).drop run.2) := by
    refine liveBytes_cut (.inr fun pair hpair => ?_)
    have hlive := hflag run.2 pair hpair
    have hlt := (List.getElem?_eq_some_iff.mp hlive).1
    exact (Option.some.inj ((hrun.behind hlt).symm.trans hlive)).symm
  let upTo := (live.zip chunks).take run.2
  have hstarts : liveBytes 0 [] upTo =
      liveBytes 0 [] (upTo.take run.1) ++ liveBytes 0 [] (upTo.drop run.1) := by
    refine liveBytes_cut (.inl fun last pair hlast hpair => ?_)
    have hin : (live.zip chunks)[last]? = some pair := by
      rw [← hpair, List.getElem?_take_of_lt]
      have hlt := hrun.lt
      omega
    exact (Option.some.inj ((hrun.before last hlast).symm.trans (hflag last pair hin))).symm
  have hdead : ∀ pair ∈ upTo.drop run.1, pair.1 = false := by
    intro pair hmem
    obtain ⟨k, hk⟩ := List.mem_iff_getElem?.mp hmem
    rw [List.getElem?_drop] at hk
    have hlt : run.1 + k < run.2 := by
      have hsome := (List.getElem?_eq_some_iff.mp hk).1
      rw [List.length_take] at hsome
      omega
    rw [List.getElem?_take_of_lt hlt] at hk
    have hnot := hrun.dead (run.1 + k) (Nat.le_add_right _ _) hlt
    exact (Option.some.inj (hnot.symm.trans (hflag _ pair hk))).symm
  have htake : upTo.take run.1 = (live.zip chunks).take run.1 := by
    rw [List.take_take, min_eq_left hrun.lt.le]
  refine ⟨((upTo.drop run.1).map Prod.snd).flatten.length, ?_,
    liveBytes 0 [] ((live.zip chunks).take run.1),
    liveBytes 0 [] ((live.zip chunks).drop run.2), ?_, ?_⟩
  · rw [← map_snd_take hlength, ← map_snd_take hlength, ← htake, ← List.length_append,
      ← List.flatten_append, ← List.map_append, List.take_append_drop]
  · rw [hends, hstarts, htake, liveBytes_dead hdead, Nat.zero_add]
  · rw [length_liveBytes, map_snd_take hlength, Nat.zero_add]

end Neutral

/-! ## Ranges -/

section Ranges

variable {range part : Nat × Nat} {ranges parts : List (Nat × Nat)}

/-- Whether an offset is in a range. -/
def InRange (range : Nat × Nat) (offset : Nat) : Prop :=
  range.1 ≤ offset ∧ offset < range.2

/-- Ranges one behind the other. -/
def InOrder (ranges : List (Nat × Nat)) : Prop :=
  ranges.Pairwise fun a b => a.2 ≤ b.1

/-- What is left of a range without a part of it. -/
theorem mem_subtract {left : Nat × Nat} :
    left ∈ subtract range part ↔ (left = (range.1, min range.2 part.1) ∨
      left = (max range.1 part.2, range.2)) ∧ left.1 < left.2 := by
  rw [subtract, List.mem_filter, decide_eq_true_eq, List.mem_cons, List.mem_singleton]

/-- A range is left with the offsets that are not in the part that is taken out of it. -/
theorem subtract_covers (offset : Nat) :
    (∃ left ∈ subtract range part, InRange left offset) ↔
      InRange range offset ∧ ¬ InRange part offset := by
  simp only [mem_subtract, InRange]
  constructor
  · intro hleft
    obtain ⟨left, ⟨hleft, _⟩, hge, hlt⟩ := hleft
    rcases hleft with hleft | hleft
    · simp only [hleft] at hge hlt
      omega
    · simp only [hleft] at hge hlt
      omega
  · intro hoffset
    obtain ⟨⟨hge, hlt⟩, hnot⟩ := hoffset
    by_cases hfront : offset < part.1
    · exact ⟨_, ⟨.inl rfl, by show range.1 < min range.2 part.1; omega⟩, hge, by
        show offset < min range.2 part.1
        omega⟩
    · exact ⟨_, ⟨.inr rfl, by show max range.1 part.2 < range.2; omega⟩, by
        show max range.1 part.2 ≤ offset
        omega, hlt⟩

/-- What is left of a range is within it. -/
theorem subtract_within {left : Nat × Nat} (h : left ∈ subtract range part) :
    range.1 ≤ left.1 ∧ left.2 ≤ range.2 ∧ left.1 < left.2 := by
  obtain ⟨hleft, hlt⟩ := mem_subtract.mp h
  rcases hleft with rfl | rfl
  · exact ⟨le_refl _, min_le_left _ _, hlt⟩
  · exact ⟨le_max_left _ _, le_refl _, hlt⟩

/-- What is left in front of a part comes before what is left behind it. -/
theorem subtract_inOrder (hpart : part.1 ≤ part.2) : InOrder (subtract range part) := by
  refine List.Pairwise.filter _ (List.pairwise_pair.mpr ?_)
  show min range.2 part.1 ≤ max range.1 part.2
  omega

/-- **Without several parts, ranges are left with the offsets that are in none of them**, in the order
in which they were. -/
theorem subtractAll_from (hparts : ∀ part ∈ parts, part.1 ≤ part.2) (horder : InOrder ranges) :
    let left := parts.foldl (fun ranges part => ranges.flatMap fun r => subtract r part) ranges
    InOrder left ∧
      (∀ offset, (∃ r ∈ left, InRange r offset) ↔
        (∃ r ∈ ranges, InRange r offset) ∧ ∀ part ∈ parts, ¬ InRange part offset) ∧
      ∀ r ∈ left, ∃ range ∈ ranges, range.1 ≤ r.1 ∧ r.2 ≤ range.2 ∧
        (parts ≠ [] ∨ range.1 < range.2 → r.1 < r.2) := by
  induction parts generalizing ranges with
  | nil =>
      refine ⟨horder, fun offset => ?_, fun r hr => ?_⟩
      · exact (and_iff_left fun _ hmem => absurd hmem List.not_mem_nil).symm
      · exact ⟨r, hr, le_refl _, le_refl _, fun hsome => hsome.resolve_left (not_not.mpr rfl)⟩
  | cons part parts ih =>
      obtain ⟨hpart, hothers⟩ := List.forall_mem_cons.mp hparts
      have hnext : InOrder (ranges.flatMap fun r => subtract r part) := by
        refine List.pairwise_flatMap.mpr ⟨fun r _ => subtract_inOrder hpart, ?_⟩
        refine horder.imp fun {a b} hab left hleft right hright => ?_
        have hfirst := subtract_within hleft
        have hsecond := subtract_within hright
        omega
      obtain ⟨hleft, hcovers, hwithin⟩ := ih hothers hnext
      refine ⟨hleft, fun offset => ?_, fun r hr => ?_⟩
      · rw [List.foldl_cons, hcovers offset, List.forall_mem_cons, ← and_assoc]
        refine and_congr_left fun _ => ?_
        constructor
        · intro hr
          obtain ⟨r, hr, hin⟩ := hr
          obtain ⟨range, hrange, hr⟩ := List.mem_flatMap.mp hr
          obtain ⟨hin, hnot⟩ := (subtract_covers offset).mp ⟨r, hr, hin⟩
          exact ⟨⟨range, hrange, hin⟩, hnot⟩
        · intro hr
          obtain ⟨⟨range, hrange, hin⟩, hnot⟩ := hr
          obtain ⟨r, hr, hin⟩ := (subtract_covers offset).mpr ⟨hin, hnot⟩
          exact ⟨r, List.mem_flatMap.mpr ⟨range, hrange, hr⟩, hin⟩
      · obtain ⟨between, hbetween, hge, hle, hnonempty⟩ := hwithin r hr
        obtain ⟨range, hrange, hmem⟩ := List.mem_flatMap.mp hbetween
        obtain ⟨hge', hle', hlt⟩ := subtract_within hmem
        exact ⟨range, hrange, hge'.trans hge, hle.trans hle', fun _ => hnonempty (.inr hlt)⟩

/-- A range without several parts. -/
theorem subtractAll_spec (hparts : ∀ part ∈ parts, part.1 ≤ part.2) :
    InOrder (subtractAll range parts) ∧
      (∀ offset, (∃ r ∈ subtractAll range parts, InRange r offset) ↔
        InRange range offset ∧ ∀ part ∈ parts, ¬ InRange part offset) ∧
      (parts = [] → subtractAll range parts = [range]) ∧
      ∀ r ∈ subtractAll range parts, range.1 ≤ r.1 ∧ r.2 ≤ range.2 ∧ (parts ≠ [] → r.1 < r.2) := by
  obtain ⟨horder, hcovers, hwithin⟩ := subtractAll_from hparts (List.pairwise_singleton _ range)
  refine ⟨horder, fun offset => ?_, fun hnone => ?_, fun r hr => ?_⟩
  · refine (hcovers offset).trans (and_congr_left fun _ => ?_)
    simp only [List.mem_singleton, exists_eq_left]
  · rw [hnone]
    rfl
  · obtain ⟨other, hother, hge, hle, hnonempty⟩ := hwithin r hr
    obtain rfl : other = range := List.mem_singleton.mp hother
    exact ⟨hge, hle, fun hsome => hnonempty (.inl hsome)⟩

end Ranges

end Encode

end Downlevel
