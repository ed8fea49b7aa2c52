import Mathlib.Data.String.Basic
import Downlevel.Services

/-!
# The listings of services

The providers of services are kept in sorted lists without duplicates, one for each service, and
the services are sorted themselves.  Adding providers keeps that, and adds these providers and
nothing else.

* `Services.sorted_addTo` — what is sorted stays sorted;
* `Services.lists_addTo`, `Services.provides_addTo` — which services are listed and which providers
  they have.
-/

namespace Downlevel

namespace Services

variable {services : Services} {service other text provider : String} {known added : List String}

/-- Putting a text into a list adds that text. -/
theorem mem_insertSorted : other ∈ insertSorted text known ↔ other = text ∨ other ∈ known := by
  induction known with
  | nil => simp [insertSorted]
  | cons first rest ih =>
      unfold insertSorted
      split
      next hsame => simp [hsame]
      next =>
        split
        next => simp
        next => simp [ih, or_left_comm]

/-- Putting a text into a list keeps the list sorted, without duplicates. -/
theorem insertSorted_sorted (h : known.Pairwise (· < ·)) :
    (insertSorted text known).Pairwise (· < ·) := by
  induction known with
  | nil => simp [insertSorted]
  | cons first rest ih =>
      obtain ⟨hfirst, hrest⟩ := List.pairwise_cons.mp h
      unfold insertSorted
      split
      next => exact h
      next hother =>
        split
        next hless =>
          refine List.pairwise_cons.mpr ⟨fun later hlater => ?_, h⟩
          rcases List.mem_cons.mp hlater with rfl | hin
          · exact hless
          · exact lt_trans hless (hfirst later hin)
        next hnot =>
          refine List.pairwise_cons.mpr ⟨fun later hlater => ?_, ih hrest⟩
          rcases mem_insertSorted.mp hlater with rfl | hin
          · exact lt_of_le_of_ne (not_lt.mp hnot) (Ne.symm hother)
          · exact hfirst later hin

/-- Putting texts into a list adds these texts. -/
theorem mem_insertAll :
    other ∈ added.foldl (fun known text => insertSorted text known) known ↔
      other ∈ added ∨ other ∈ known := by
  induction added generalizing known with
  | nil => simp
  | cons text rest ih => simp [ih, mem_insertSorted, or_left_comm, or_assoc]

/-- Putting texts into a list keeps the list sorted, without duplicates. -/
theorem insertAll_sorted (h : known.Pairwise (· < ·)) :
    (added.foldl (fun known text => insertSorted text known) known).Pairwise (· < ·) := by
  induction added generalizing known with
  | nil => exact h
  | cons text rest ih => exact ih (insertSorted_sorted h)

/-- Services are sorted, and so are the providers of each, without duplicates. -/
structure Sorted (listings : List (String × List String)) : Prop where
  services : listings.Pairwise fun first second => first.1 < second.1
  providers : ∀ listing ∈ listings, listing.2.Pairwise (· < ·)

/-- A service has a listing. -/
def Lists (listings : List (String × List String)) (service : String) : Prop :=
  ∃ known, (service, known) ∈ listings

/-- A provider is in the listing of a service. -/
def Provides (listings : List (String × List String)) (service provider : String) : Prop :=
  ∃ known, (service, known) ∈ listings ∧ provider ∈ known

variable {listings : List (String × List String)}

/-- Whether a service is listed first or later. -/
theorem lists_cons {first : String × List String} :
    Lists (first :: listings) other ↔ other = first.1 ∨ Lists listings other := by
  obtain ⟨name, known⟩ := first
  simp [Lists, exists_or]

/-- Whether a provider is listed first or later. -/
theorem provides_cons {first : String × List String} :
    Provides (first :: listings) other provider ↔
      (other = first.1 ∧ provider ∈ first.2) ∨ Provides listings other provider := by
  obtain ⟨name, known⟩ := first
  simp [Provides, or_and_right, exists_or, and_assoc]

/-- Adding providers lists their service. -/
theorem lists_addTo :
    Lists (addTo service added listings) other ↔ other = service ∨ Lists listings other := by
  induction listings with
  | nil => simp [addTo, lists_cons]
  | cons first rest ih =>
      obtain ⟨name, known⟩ := first
      unfold addTo
      split
      next hsame => simp [lists_cons, hsame]
      next =>
        split
        next => simp only [lists_cons]
        next => simp only [lists_cons, ih, or_left_comm]

/-- **Adding providers of a service adds these** and no others. -/
theorem provides_addTo :
    Provides (addTo service added listings) other provider ↔
      (other = service ∧ provider ∈ added) ∨ Provides listings other provider := by
  induction listings with
  | nil => simp [addTo, provides_cons, mem_insertAll]
  | cons first rest ih =>
      obtain ⟨name, known⟩ := first
      unfold addTo
      split
      next hsame => simp only [provides_cons, mem_insertAll, hsame, and_or_left, or_assoc]
      next =>
        split
        next => simp [provides_cons, mem_insertAll]
        next => simp only [provides_cons, ih, or_left_comm]

/-- Adding providers keeps everything sorted. -/
theorem sorted_addTo (h : Sorted listings) : Sorted (addTo service added listings) := by
  induction listings with
  | nil =>
      exact ⟨List.pairwise_singleton _ _,
        List.forall_mem_cons.mpr ⟨insertAll_sorted .nil, by simp⟩⟩
  | cons first rest ih =>
      obtain ⟨name, known⟩ := first
      obtain ⟨hservices, hproviders⟩ := h
      obtain ⟨hfirst, hrest⟩ := List.pairwise_cons.mp hservices
      have hknown : known.Pairwise (· < ·) := hproviders _ List.mem_cons_self
      have hothers : ∀ listing ∈ rest, listing.2.Pairwise (· < ·) := fun listing hlisting =>
        hproviders listing (List.mem_cons_of_mem _ hlisting)
      unfold addTo
      split
      next =>
        exact ⟨List.pairwise_cons.mpr ⟨hfirst, hrest⟩,
          List.forall_mem_cons.mpr ⟨insertAll_sorted hknown, hothers⟩⟩
      next hother =>
        split
        next hless =>
          refine ⟨List.pairwise_cons.mpr ⟨fun listing hlisting => ?_, hservices⟩, ?_⟩
          · rcases List.mem_cons.mp hlisting with rfl | hin
            · exact hless
            · exact lt_trans hless (hfirst listing hin)
          · exact List.forall_mem_cons.mpr ⟨insertAll_sorted .nil, hproviders⟩
        next hnot =>
          obtain ⟨hlater, hall⟩ := ih ⟨hrest, hothers⟩
          refine ⟨List.pairwise_cons.mpr ⟨fun listing hlisting => ?_, hlater⟩,
            List.forall_mem_cons.mpr ⟨hknown, hall⟩⟩
          obtain ⟨found, providers⟩ := listing
          rcases lists_addTo.mp ⟨providers, hlisting⟩ with rfl | ⟨providers, hin⟩
          · exact lt_of_le_of_ne (not_lt.mp hnot) (Ne.symm hother)
          · exact hfirst (found, providers) hin

/-- Adding providers one after the other adds these. -/
theorem addAll_spec (pairs : List (String × String)) (services : Services) :
    let after := pairs.foldl (fun services pair => services.add pair.1 pair.2) services
    (Sorted services.providers → Sorted after.providers) ∧
      (∀ other, Lists after.providers other ↔
        Lists services.providers other ∨ ∃ provider, (other, provider) ∈ pairs) ∧
      ∀ other provider, Provides after.providers other provider ↔
        Provides services.providers other provider ∨ (other, provider) ∈ pairs := by
  induction pairs generalizing services with
  | nil => simp
  | cons pair rest ih =>
      obtain ⟨service, text⟩ := pair
      obtain ⟨hsorted, hlists, hprovides⟩ := ih (services.add service text)
      refine ⟨fun h => hsorted (sorted_addTo h), fun other => ?_, fun other provider => ?_⟩
      · rw [List.foldl_cons, hlists, add, lists_addTo]
        simp [exists_or, or_assoc, or_left_comm]
      · rw [List.foldl_cons, hprovides, add, provides_addTo]
        simp [or_assoc, or_left_comm]

end Services

end Downlevel
