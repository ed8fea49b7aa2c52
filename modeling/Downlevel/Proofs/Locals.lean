import Mathlib.Data.List.TakeDrop
import Mathlib.Data.List.TakeWhile
import Downlevel.Proofs.Labels

/-!
# Local variables and their generic types

Class files have two tables of local variables, one with descriptors and one with generic types.
The reader makes one list of both: each generic type goes to the first variable with the same range,
slot and name, or becomes a variable of its own.  Writing takes the list apart again.

Not every list can be taken apart and put together again; those that were put together can.  What
they have in common is `Merged`, and `Merged.restore` is the way back.
-/

namespace Downlevel

namespace LocalVariable

/-- Whether two variables have the same range, slot and name. -/
def Alike (v w : LocalVariable) : Prop :=
  v.start = w.start ∧ v.stop = w.stop ∧ v.slot = w.slot ∧ v.name = w.name

instance (v w : LocalVariable) : Decidable (v.Alike w) :=
  inferInstanceAs (Decidable (_ ∧ _))

/-- The variable as the table of descriptors has it. -/
def withoutSignature (v : LocalVariable) : LocalVariable :=
  { v with signature := none }

/-- The variable as the table of generic types has it. -/
def withoutDescriptor (v : LocalVariable) : LocalVariable :=
  { v with descriptor := none }

end LocalVariable

namespace Decode

variable {locals before after : List LocalVariable} {found type : LocalVariable}

/-- The entries of the table of descriptors. -/
def described (locals : List LocalVariable) : List LocalVariable :=
  locals.filterMap fun v => v.descriptor.map fun _ => v.withoutSignature

/-- The entries of the table of generic types. -/
def typed (locals : List LocalVariable) : List LocalVariable :=
  locals.filterMap fun v => v.signature.map fun _ => v.withoutDescriptor

/-- What local variables have in common after they were put together from two tables: those with
descriptors come first, a variable with a generic type is the first of its kind, and a variable
without a descriptor has a generic type. -/
structure Merged (locals : List LocalVariable) : Prop where
  order : locals.Pairwise fun v w => v.descriptor = none → w.descriptor = none
  first : locals.Pairwise fun v w => w.signature ≠ none → ¬ v.Alike w
  typed : ∀ v ∈ locals, v.descriptor = none → v.signature ≠ none

/-- Whether a generic type belongs to a variable. -/
theorem belongs_eq (v : LocalVariable) :
    (decide (v.start = type.start) && decide (v.stop = type.stop) && decide (v.slot = type.slot) &&
      decide (v.name = type.name)) = decide (v.Alike type) := by
  rw [Bool.eq_iff_iff, decide_eq_true_iff]
  simp [LocalVariable.Alike, and_assoc]

/-- A generic type goes to the first variable it belongs to. -/
theorem addVariableType_found (hbefore : ∀ v ∈ before, ¬ v.Alike type) (hfound : found.Alike type) :
    addVariableType (before ++ found :: after) type =
      before ++ { found with signature := type.signature } :: after := by
  have hskip : ∀ v ∈ before, (!decide (v.Alike type)) = true := by
    intro v hv
    simp [hbefore v hv]
  simp only [addVariableType, belongs_eq, List.span_eq_takeWhile_dropWhile]
  rw [List.takeWhile_append_of_pos hskip, List.dropWhile_append_of_pos hskip]
  simp [hfound]

/-- A generic type that belongs to no variable becomes one. -/
theorem addVariableType_new (h : ∀ v ∈ locals, ¬ v.Alike type) :
    addVariableType locals type = locals ++ [type] := by
  have hskip : ∀ v ∈ locals, (!decide (v.Alike type)) = true := by
    intro v hv
    simp [h v hv]
  simp only [addVariableType, belongs_eq, List.span_eq_takeWhile_dropWhile]
  rw [List.dropWhile_eq_nil_iff.mpr hskip]

/-- A generic type belongs to some first variable, or to none. -/
theorem exists_first_alike (locals : List LocalVariable) (type : LocalVariable) :
    (∃ before found after, locals = before ++ found :: after ∧
      (∀ v ∈ before, ¬ v.Alike type) ∧ found.Alike type) ∨ ∀ v ∈ locals, ¬ v.Alike type := by
  induction locals with
  | nil => exact .inr nofun
  | cons v locals ih =>
      by_cases hv : v.Alike type
      · exact .inl ⟨[], v, locals, rfl, nofun, hv⟩
      · obtain ⟨before, found, after, rfl, hbefore, hfound⟩ | hnone := ih
        · exact .inl ⟨v :: before, found, after, rfl, List.forall_mem_cons.mpr ⟨hv, hbefore⟩, hfound⟩
        · exact .inr (List.forall_mem_cons.mpr ⟨hv, hnone⟩)

/-- Adding a generic type keeps what local variables have in common. -/
theorem Merged.add (h : Merged locals) (hdescriptor : type.descriptor = none)
    (hsignature : type.signature ≠ none) : Merged (addVariableType locals type) := by
  obtain ⟨before, found, after, rfl, hbefore, hfound⟩ | hnone := exists_first_alike locals type
  · rw [addVariableType_found hbefore hfound]
    obtain ⟨horder, hfirst, htyped⟩ := h
    rw [List.pairwise_append, List.pairwise_cons] at horder hfirst
    constructor
    · rw [List.pairwise_append, List.pairwise_cons]
      refine ⟨horder.1, horder.2.1, fun v hv w hw => ?_⟩
      rcases List.mem_cons.mp hw with rfl | hw
      · exact horder.2.2 v hv found List.mem_cons_self
      · exact horder.2.2 v hv w (List.mem_cons_of_mem _ hw)
    · rw [List.pairwise_append, List.pairwise_cons]
      refine ⟨hfirst.1, hfirst.2.1, fun v hv w hw => ?_⟩
      rcases List.mem_cons.mp hw with rfl | hw
      · rintro - ⟨hstart, hstop, hslot, hname⟩
        exact hbefore v hv ⟨hstart.trans hfound.1, hstop.trans hfound.2.1,
          hslot.trans hfound.2.2.1, hname.trans hfound.2.2.2⟩
      · exact hfirst.2.2 v hv w (List.mem_cons_of_mem _ hw)
    · intro v hv
      rcases List.mem_append.mp hv with hv | hv
      · exact htyped v (List.mem_append_left _ hv)
      · rcases List.mem_cons.mp hv with rfl | hv
        · exact fun _ => hsignature
        · exact htyped v (List.mem_append_right _ (List.mem_cons_of_mem _ hv))
  · rw [addVariableType_new hnone]
    constructor
    · rw [List.pairwise_append]
      refine ⟨h.order, List.pairwise_singleton _ _, fun v hv w hw _ => ?_⟩
      rw [List.mem_singleton.mp hw]
      exact hdescriptor
    · rw [List.pairwise_append]
      refine ⟨h.first, List.pairwise_singleton _ _, fun v hv w hw _ => ?_⟩
      rw [List.mem_singleton.mp hw]
      exact hnone v hv
    · intro v hv
      rcases List.mem_append.mp hv with hv | hv
      · exact h.typed v hv
      · rw [List.mem_singleton.mp hv]
        exact fun _ => hsignature

/-- Local variables with descriptors and without generic types. -/
theorem merged_described (hdescriptor : ∀ v ∈ locals, v.descriptor ≠ none)
    (hsignature : ∀ v ∈ locals, v.signature = none) : Merged locals where
  order := List.pairwise_of_forall_mem_list fun v hv _ _ hnone => absurd hnone (hdescriptor v hv)
  first := List.pairwise_of_forall_mem_list fun _ _ w hw hsome => absurd (hsignature w hw) hsome
  typed v hv hnone := absurd hnone (hdescriptor v hv)

/-- **Local variables that were put together have this in common.** -/
theorem merged_foldl {types : List LocalVariable} (h : Merged locals)
    (htypes : ∀ type ∈ types, type.descriptor = none ∧ type.signature ≠ none) :
    Merged (types.foldl addVariableType locals) := by
  induction types generalizing locals with
  | nil => exact h
  | cons type types ih =>
      obtain ⟨⟨hdescriptor, hsignature⟩, hothers⟩ := List.forall_mem_cons.mp htypes
      exact ih (h.add hdescriptor hsignature) hothers

/-- What holds of all variables and of a generic type holds of them together, if it is not about
generic types. -/
theorem forall_addVariableType {P : LocalVariable → Prop} (hlocals : ∀ v ∈ locals, P v)
    (htype : P type) (hset : ∀ v, P v → P { v with signature := type.signature }) :
    ∀ v ∈ addVariableType locals type, P v := by
  obtain ⟨before, found, after, rfl, hbefore, hfound⟩ | hnone := exists_first_alike locals type
  · rw [addVariableType_found hbefore hfound]
    simp only [List.forall_mem_append, List.forall_mem_cons] at hlocals ⊢
    exact ⟨hlocals.1, hset found hlocals.2.1, hlocals.2.2⟩
  · rw [addVariableType_new hnone, List.forall_mem_append]
    exact ⟨hlocals, List.forall_mem_singleton.mpr htype⟩

/-- What holds of all variables and of all generic types holds of them together, if it is not about
generic types. -/
theorem forall_foldl_addVariableType {P : LocalVariable → Prop} {types : List LocalVariable}
    (hlocals : ∀ v ∈ locals, P v) (htypes : ∀ type ∈ types, P type)
    (hset : ∀ v signature, P v → P { v with signature }) :
    ∀ v ∈ types.foldl addVariableType locals, P v := by
  induction types generalizing locals with
  | nil => exact hlocals
  | cons type types ih =>
      obtain ⟨htype, hothers⟩ := List.forall_mem_cons.mp htypes
      exact ih (forall_addVariableType hlocals htype fun v => hset v _) hothers

/-- Every variable and a generic type are found again, but for their types. -/
theorem exists_alike_addVariableType (type : LocalVariable) {w : LocalVariable}
    (h : w ∈ type :: locals) : ∃ v ∈ addVariableType locals type, v.Alike w := by
  obtain ⟨before, found, after, rfl, hbefore, hfound⟩ | hnone := exists_first_alike locals type
  · rw [addVariableType_found hbefore hfound]
    simp only [List.mem_cons, List.mem_append] at h
    obtain rfl | hw | rfl | hw := h
    · exact ⟨{ found with signature := w.signature }, by simp, hfound⟩
    · exact ⟨w, by simp [hw], rfl, rfl, rfl, rfl⟩
    · exact ⟨{ w with signature := type.signature }, by simp, rfl, rfl, rfl, rfl⟩
    · exact ⟨w, by simp [hw], rfl, rfl, rfl, rfl⟩
  · rw [addVariableType_new hnone]
    refine ⟨w, ?_, rfl, rfl, rfl, rfl⟩
    rcases List.mem_cons.mp h with rfl | hw
    · simp
    · simp [hw]

/-- Every variable and every generic type are found again, but for their types. -/
theorem exists_alike_foldl {types : List LocalVariable} {w : LocalVariable}
    (h : w ∈ locals ∨ w ∈ types) : ∃ v ∈ types.foldl addVariableType locals, v.Alike w := by
  induction types generalizing locals w with
  | nil => exact ⟨w, by simpa using h, rfl, rfl, rfl, rfl⟩
  | cons type types ih =>
      rw [List.mem_cons, ← or_assoc] at h
      rcases h with h | h
      · obtain ⟨v, hv, halike⟩ := exists_alike_addVariableType type
          (List.mem_cons.mpr h.symm)
        obtain ⟨u, hu, hstart, hstop, hslot, hname⟩ := ih (.inl hv)
        exact ⟨u, hu, hstart.trans halike.1, hstop.trans halike.2.1, hslot.trans halike.2.2.1,
          hname.trans halike.2.2.2⟩
      · exact ih (.inr h)

/-- Renaming labels keeps what local variables have in common, if different ones stay different. -/
theorem Merged.mapLabels (h : Merged locals) {f : Label → Label} {labels : Set Label}
    (hf : Set.InjOn f labels) (hlabels : ∀ v ∈ locals, v.start ∈ labels ∧ v.stop ∈ labels) :
    Merged (locals.map (LocalVariable.mapLabels f)) where
  order := List.pairwise_map.mpr h.order
  first := by
    rw [List.pairwise_map]
    refine h.first.imp_of_mem fun hv hw hne hsignature => ?_
    rintro ⟨hstart, hstop, hslot, hname⟩
    obtain ⟨hvstart, hvstop⟩ := hlabels _ hv
    obtain ⟨hwstart, hwstop⟩ := hlabels _ hw
    exact hne hsignature ⟨hf hvstart hwstart hstart, hf hvstop hwstop hstop, hslot, hname⟩
  typed := List.forall_mem_map.mpr h.typed

/-- Without descriptors there are no entries in their table. -/
theorem described_eq_nil (h : ∀ v ∈ locals, v.descriptor = none) : described locals = [] := by
  rw [described, List.filterMap_eq_nil_iff]
  intro v hv
  rw [h v hv, Option.map_none]

/-- A variable with a descriptor has an entry in their table. -/
theorem described_cons_some {v : LocalVariable} (h : v.descriptor ≠ none) :
    described (v :: locals) = v.withoutSignature :: described locals := by
  obtain ⟨descriptor, hdescriptor⟩ := Option.ne_none_iff_exists'.mp h
  rw [described, List.filterMap_cons_some (by rw [hdescriptor, Option.map_some])]
  rfl

/-- A variable with a generic type has an entry in their table. -/
theorem typed_cons_some {v : LocalVariable} (h : v.signature ≠ none) :
    typed (v :: locals) = v.withoutDescriptor :: typed locals := by
  obtain ⟨signature, hsignature⟩ := Option.ne_none_iff_exists'.mp h
  rw [typed, List.filterMap_cons_some (by rw [hsignature, Option.map_some])]
  rfl

/-- A variable without a generic type has no entry in their table. -/
theorem typed_cons_none {v : LocalVariable} (h : v.signature = none) :
    typed (v :: locals) = typed locals := by
  rw [typed, List.filterMap_cons_none (by rw [h, Option.map_none])]
  rfl

/-- The generic types of the variables in `after` restore these behind those in `before`. -/
theorem Merged.restore_from (h : Merged (before ++ after)) :
    (Decode.typed after).foldl addVariableType (before ++ described after) = before ++ after := by
  induction after generalizing before with
  | nil => rfl
  | cons v after ih =>
      have hnext : Merged ((before ++ [v]) ++ after) := by
        rwa [List.append_assoc, List.singleton_append]
      have hrest := ih hnext
      rw [List.append_assoc, List.append_assoc, List.singleton_append, List.singleton_append] at hrest
      have hbefore : v.signature ≠ none → ∀ w ∈ before, ¬ w.Alike v := fun hsome w hw =>
        (List.pairwise_append.mp h.first).2.2 w hw v List.mem_cons_self hsome
      by_cases hdescriptor : v.descriptor = none
      · -- All that follow are without descriptors, so nothing stands there to be restored.
        have hsome := h.typed v (by simp) hdescriptor
        have horder := (List.pairwise_cons.mp (List.pairwise_append.mp h.order).2.1).1
        have hnone : ∀ w ∈ after, w.descriptor = none := fun w hw => horder w hw hdescriptor
        have hown : v.withoutDescriptor = v := by
          rw [LocalVariable.withoutDescriptor, ← hdescriptor]
        rw [described_eq_nil hnone] at hrest
        rw [described_eq_nil (List.forall_mem_cons.mpr ⟨hdescriptor, hnone⟩), List.append_nil,
          typed_cons_some hsome, List.foldl_cons, hown, addVariableType_new (hbefore hsome)]
        exact hrest
      · by_cases hsignature : v.signature = none
        · have hown : v.withoutSignature = v := by
            rw [LocalVariable.withoutSignature, ← hsignature]
          rw [described_cons_some hdescriptor, typed_cons_none hsignature, hown]
          exact hrest
        · have hadd : addVariableType (before ++ v.withoutSignature :: described after)
              v.withoutDescriptor = before ++ v :: described after :=
            addVariableType_found (hbefore hsignature) ⟨rfl, rfl, rfl, rfl⟩
          rw [described_cons_some hdescriptor, typed_cons_some hsignature, List.foldl_cons, hadd]
          exact hrest

/-- **Local variables that were put together can be taken apart and put together again.** -/
theorem Merged.restore (h : Merged locals) :
    (Decode.typed locals).foldl addVariableType (described locals) = locals := by
  have hall : Merged ([] ++ locals) := h
  exact hall.restore_from

/-- **The tables that are written for local variables give them back**, except that no table is
written for no variables. -/
theorem allLocals_restore {tables : CodeTables} (h : Merged locals)
    (hlocals : tables.localVariables = (some (described locals)).filter fun items => !items.isEmpty)
    (htypes : tables.variableTypes = Decode.typed locals) :
    tables.allLocals = (some locals).filter fun items => !items.isEmpty := by
  have hdescribed : tables.localVariables.getD [] = described locals := by
    rw [hlocals]
    cases described locals <;> rfl
  have hrestore := h.restore
  unfold CodeTables.allLocals
  split
  case isTrue hempty =>
    rw [htypes, List.isEmpty_iff] at hempty
    rw [hempty, List.foldl_nil] at hrestore
    rw [hlocals, hrestore]
  case isFalse hsome =>
    rw [hdescribed, htypes, hrestore]
    cases locals with
    | nil =>
        rw [htypes] at hsome
        cases hsome rfl
    | cons v locals => rfl

end Decode

end Downlevel
