import Mathlib.Data.Finset.Prod
import Mathlib.Data.Finset.Card
import Std.Data.String.ToNat
import Downlevel.Lower.NameSupply

/-!
# Names that are free

A name with a stem is free if neither it nor one of its companions is in use.  The search for one
tries only so many numbers, so it has to be shown that these are enough: every name in use blocks at
most one number for each member of a family, since the number can be read off the name.

* `exists_free` — among the numbers that are tried there is a free one;
* `next_smallest` — so the next name has the smallest number that is free;
* `Yields` — names that were handed out one after the other are new and differ from each other.
-/

namespace Downlevel

namespace NameSupply

variable {supply : NameSupply} {stem : String} {companions : List String}

/-- The members of a family are the name with each companion, or nothing, in front. -/
theorem mem_family {name member : String} :
    member ∈ family companions name ↔ ∃ front ∈ "" :: companions, front ++ name = member := by
  simp [family, eq_comm]

/-- A name is free exactly if nothing of its family is in use. -/
theorem isFree_iff {name : String} :
    supply.isFree companions name = true ↔ ∀ member ∈ family companions name,
      member ∉ supply.used := by
  simp [isFree]

/-- The numbers of names with the same stem can be told from each other behind anything. -/
theorem numbered_inj {front : String} {m n : Nat}
    (h : front ++ (stem ++ toString m) = front ++ (stem ++ toString n)) : m = n := by
  have hnumbers : toString m = toString n :=
    (String.append_right_inj stem).mp ((String.append_right_inj front).mp h)
  exact Nat.repr_inj.mp hnumbers

/-- **A free number is found soon.**  If all numbers that are tried were blocked, there would be more
pairs of a companion and a name in use than there are. -/
theorem exists_free (supply : NameSupply) (stem : String) (companions : List String) :
    ∃ number < supply.used.size * (companions.length + 1) + 1,
      supply.isFree companions (stem ++ toString number) = true := by
  classical
  by_contra hnone
  have hblocked : ∀ number < supply.used.size * (companions.length + 1) + 1,
      ∃ front ∈ "" :: companions, front ++ (stem ++ toString number) ∈ supply.used := by
    intro number hnumber
    have hnot : ¬ supply.isFree companions (stem ++ toString number) = true :=
      fun hfree => hnone ⟨number, hnumber, hfree⟩
    rw [isFree_iff] at hnot
    push Not at hnot
    obtain ⟨member, hmember, hused⟩ := hnot
    obtain ⟨front, hfront, rfl⟩ := mem_family.mp hmember
    exact ⟨front, hfront, hused⟩
  choose! front hfront hused using hblocked
  -- Each number goes to the companion that blocks it and the name in use.
  let blocker (number : Nat) : String × String :=
    (front number, front number ++ (stem ++ toString number))
  have hmaps : Set.MapsTo blocker
      (Finset.range (supply.used.size * (companions.length + 1) + 1))
      (("" :: companions).toFinset ×ˢ supply.used.toList.toFinset : Finset (String × String)) := by
    intro number hnumber
    have hlt := Finset.mem_range.mp hnumber
    simp only [Finset.coe_product, Set.mem_prod, Finset.mem_coe, List.mem_toFinset,
      Std.HashSet.mem_toList]
    exact ⟨hfront number hlt, hused number hlt⟩
  have hinj : Set.InjOn blocker (Finset.range (supply.used.size * (companions.length + 1) + 1)) := by
    intro m _ n _ hsame
    obtain ⟨hfronts, hnames⟩ := Prod.mk.inj hsame
    rw [hfronts] at hnames
    exact numbered_inj hnames
  have hcard := Finset.card_le_card_of_injOn blocker hmaps hinj
  rw [Finset.card_range, Finset.card_product] at hcard
  have hfronts : ("" :: companions).toFinset.card ≤ companions.length + 1 :=
    ("" :: companions).toFinset_card_le
  have hnames := supply.used.toList.toFinset_card_le
  rw [Std.HashSet.length_toList] at hnames
  have hpairs := Nat.mul_le_mul hfronts hnames
  rw [Nat.mul_comm (companions.length + 1)] at hpairs
  omega

/-- The search finds the smallest free number from where it starts, if there is one among those that
it tries. -/
theorem freeNumber_smallest {tries start number : Nat} (hstart : start ≤ number)
    (hnumber : number < start + tries)
    (hfree : supply.isFree companions (stem ++ toString number) = true) :
    supply.isFree companions
        (stem ++ toString (supply.freeNumber stem companions tries start)) = true ∧
      ∀ other, start ≤ other → other < supply.freeNumber stem companions tries start →
        supply.isFree companions (stem ++ toString other) = false := by
  induction tries generalizing start with
  | zero => omega
  | succ tries ih =>
      unfold freeNumber
      split
      · next hhere => exact ⟨hhere, fun other hle hlt => by omega⟩
      · next hhere =>
          have hne : number ≠ start := by
            rintro rfl
            exact hhere hfree
          have hafter : start + 1 ≤ number := by omega
          obtain ⟨hfound, hsmallest⟩ := ih hafter (by omega)
          refine ⟨hfound, fun other hle hlt => ?_⟩
          rcases Nat.eq_or_lt_of_le hle with rfl | hlater
          · simpa using hhere
          · exact hsmallest other hlater hlt

/-- **The next name has the smallest number that is free** together with all companions, and its
family is in use from then on. -/
theorem next_smallest (supply : NameSupply) (stem : String) (companions : List String) :
    ∃ number : Nat,
      (supply.next stem companions).1 = stem ++ toString number ∧
      supply.isFree companions (stem ++ toString number) = true ∧
      (∀ other < number, supply.isFree companions (stem ++ toString other) = false) ∧
      ∀ name, name ∈ (supply.next stem companions).2.used ↔
        name ∈ supply.used ∨ name ∈ family companions (stem ++ toString number) := by
  obtain ⟨number, hlt, hfree⟩ := exists_free supply stem companions
  rw [← Nat.zero_add (_ + 1)] at hlt
  obtain ⟨hfound, hsmallest⟩ := freeNumber_smallest (Nat.zero_le number) hlt hfree
  refine ⟨_, rfl, hfound, fun other hother => hsmallest other (Nat.zero_le _) hother, fun name => ?_⟩
  simp only [next, Std.HashSet.mem_insertMany_list, List.contains_iff_mem]

/-! ## Names handed out one after the other -/

/-- From one supply to another, names were handed out: they are new, they differ, and they are in use
from then on. -/
structure Yields (start finish : NameSupply) (names : List String) : Prop where
  grows : ∀ name ∈ start.used, name ∈ finish.used
  new : ∀ name ∈ names, name ∉ start.used
  taken : ∀ name ∈ names, name ∈ finish.used
  distinct : names.Nodup

namespace Yields

variable {a b c : NameSupply} {first second : List String}

/-- Where nothing is handed out, nothing changes. -/
theorem nil (supply : NameSupply) : Yields supply supply [] :=
  ⟨fun _ => id, List.forall_mem_nil _, List.forall_mem_nil _, List.nodup_nil⟩

/-- Names that are handed out later differ from those before. -/
theorem append (h : Yields a b first) (h' : Yields b c second) : Yields a c (first ++ second) where
  grows name hmem := h'.grows name (h.grows name hmem)
  new name hmem hused := by
    rcases List.mem_append.mp hmem with hfirst | hsecond
    · exact h.new name hfirst hused
    · exact h'.new name hsecond (h.grows name hused)
  taken name hmem := by
    rcases List.mem_append.mp hmem with hfirst | hsecond
    · exact h'.grows name (h.taken name hfirst)
    · exact h'.taken name hsecond
  distinct := by
    refine List.nodup_append.mpr ⟨h.distinct, h'.distinct, ?_⟩
    rintro name hfirst _ hsecond rfl
    exact h'.new name hsecond (h.taken name hfirst)

/-- The order of the names does not matter. -/
theorem perm (h : Yields a b first) (hperm : first.Perm second) : Yields a b second where
  grows := h.grows
  new name hmem := h.new name (hperm.mem_iff.mpr hmem)
  taken name hmem := h.taken name (hperm.mem_iff.mpr hmem)
  distinct := hperm.nodup_iff.mp h.distinct

end Yields

/-- The next name and its companions are handed out. -/
theorem yields_next (supply : NameSupply) (stem : String) (companions : List String)
    (hcompanions : ("" :: companions).Nodup) :
    Yields supply (supply.next stem companions).2
      (family companions (supply.next stem companions).1) := by
  obtain ⟨number, hname, hfree, _, hused⟩ := next_smallest supply stem companions
  rw [hname]
  refine ⟨fun name hmem => (hused name).mpr (.inl hmem), isFree_iff.mp hfree,
    fun name hmem => (hused name).mpr (.inr hmem), ?_⟩
  have hfamily : family companions (stem ++ toString number) =
      ("" :: companions).map fun front => front ++ (stem ++ toString number) := by
    simp [family]
  rw [hfamily]
  exact hcompanions.map fun _ _ hsame => (String.append_left_inj _).mp hsame

end NameSupply

end Downlevel
