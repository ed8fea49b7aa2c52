import Downlevel.Encode.Class
import Downlevel.Proofs.Outcome

/-!
# What tasks keep

A task leaves a state behind even if it fails.  So an invariant of the state is something that every
run of a task keeps, and what a task promises of its value may rest on the invariant.  Writers with a
pool beside the state keep an invariant of the state if they do so with every pool.

* `Task.Ensures` — a task keeps an invariant, and its value has a property;
* `Task.Ensures.bind`, `Task.ensures_mapM` — so do tasks in sequence, and going through a list;
* `Emit.Keeps` — the same for writers.
-/

namespace Downlevel

variable {σ α β : Type} {I : σ → Prop}

namespace Task

/-- From a state with the property `I` a task ends in a state with that property, even if it fails,
and the value that it gives has the property `Q`. -/
def Ensures (I : σ → Prop) (task : Task σ α) (Q : α → Prop) : Prop :=
  ∀ s, I s → I (task s).2 ∧ ∀ value, (task s).1 = .ok value → Q value

variable {task : Task σ α} {Q R : α → Prop}

/-- What a successful run of a task leaves behind. -/
theorem Ensures.run (h : Ensures I task Q) {s s' : σ} {value : α} (hs : I s)
    (hrun : task s = (.ok value, s')) : Q value ∧ I s' := by
  obtain ⟨hkeep, hgive⟩ := h s hs
  rw [hrun] at hkeep hgive
  exact ⟨hgive value rfl, hkeep⟩

/-- Less may be promised. -/
theorem Ensures.mono (h : Ensures I task Q) (hle : ∀ value, Q value → R value) :
    Ensures I task R := by
  intro s hs
  obtain ⟨hkeep, hgive⟩ := h s hs
  exact ⟨hkeep, fun value hrun => hle value (hgive value hrun)⟩

/-- What every successful run gives may be promised too. -/
theorem Ensures.and (h : Ensures I task Q)
    (hR : ∀ s value s', task s = (.ok value, s') → R value) :
    Ensures I task fun value => Q value ∧ R value := by
  intro s hs
  obtain ⟨hkeep, hgive⟩ := h s hs
  exact ⟨hkeep, fun value hrun => ⟨hgive value hrun, hR s value (task s).2 (Prod.ext hrun rfl)⟩⟩

/-- A task that starts in a state with the property `I` ends in one. -/
abbrev Keeps (I : σ → Prop) (task : Task σ α) : Prop :=
  Ensures I task fun _ => True

/-- Nothing need be promised. -/
theorem Ensures.keeps (h : Ensures I task Q) : Keeps I task :=
  h.mono fun _ _ => trivial

/-- A value leaves the state alone. -/
theorem ensures_pure {value : α} (h : Q value) : Ensures I (pure value : Task σ α) Q := by
  intro s hs
  refine ⟨hs, fun found hfound => ?_⟩
  cases hfound
  exact h

/-- What only has an outcome leaves the state alone. -/
theorem ensures_lift {outcome : Except Error α} (h : ∀ value, outcome = .ok value → Q value) :
    Ensures I (liftM outcome : Task σ α) Q := by
  intro s hs
  exact ⟨hs, h⟩

/-- Nothing need be known of the outcome. -/
theorem keeps_lift (outcome : Except Error α) : Keeps I (liftM outcome : Task σ α) :=
  ensures_lift fun _ _ => trivial

/-- What fails leaves the state alone. -/
theorem ensures_fail {fault : Fault} :
    Ensures I (liftM (fail fault : Except Error α) : Task σ α) Q :=
  ensures_lift fun _ h => absurd h fail_ne_ok

/-- A task that looks at the state finds the invariant. -/
theorem ensures_get : Ensures I (get : Task σ σ) I := by
  intro s hs
  refine ⟨hs, fun found hfound => ?_⟩
  cases hfound
  exact hs

/-- Replacing the state keeps the invariant if the new one has it. -/
theorem ensures_set {s : σ} (h : I s) : Keeps I (set s : Task σ PUnit) := by
  intro _ _
  exact ⟨h, fun _ _ => trivial⟩

/-- Changing the state keeps the invariant if the change does. -/
theorem ensures_modify {f : σ → σ} (h : ∀ s, I s → I (f s)) :
    Keeps I (modify f : Task σ PUnit) := by
  intro s hs
  exact ⟨h s hs, fun _ _ => trivial⟩

/-- Tasks in sequence keep what both keep. -/
theorem Ensures.bind {next : α → Task σ β} {R : β → Prop} (h : Ensures I task Q)
    (hnext : ∀ value, Q value → Ensures I (next value) R) : Ensures I (task >>= next) R := by
  intro s hs
  obtain ⟨hkeep, hgive⟩ := h s hs
  show I (ExceptT.bindCont next (task s).1 (task s).2).2 ∧
    ∀ value, (ExceptT.bindCont next (task s).1 (task s).2).1 = .ok value → R value
  cases hrun : (task s).1 with
  | error error =>
      refine ⟨hkeep, fun value hvalue => ?_⟩
      cases hvalue
  | ok value => exact hnext value (hgive value hrun) (task s).2 hkeep

/-- Naming the place of an error keeps what the task keeps. -/
theorem Ensures.within (h : Ensures I task Q) (fault : Fault) :
    Ensures I (task.within fault) Q := by
  intro s hs
  obtain ⟨hkeep, hgive⟩ := h s hs
  unfold Task.within
  cases hrun : task s with
  | mk outcome after =>
      rw [hrun] at hkeep hgive
      cases outcome with
      | error error =>
          refine ⟨hkeep, fun value hvalue => ?_⟩
          cases hvalue
      | ok value => exact ⟨hkeep, hgive⟩

/-- Going through a list keeps what each item keeps. -/
theorem ensures_mapM {f : α → Task σ β} {items : List α}
    (h : ∀ item ∈ items, Keeps I (f item)) : Keeps I (items.mapM f) := by
  induction items with
  | nil => exact ensures_pure trivial
  | cons item items ih =>
      rw [List.mapM_cons]
      have hrest := ih fun other hmem => h other (List.mem_cons_of_mem item hmem)
      refine (h item List.mem_cons_self).bind fun first _ => ?_
      exact hrest.bind fun rest _ => ensures_pure trivial

end Task

namespace Emit

/-- Whatever pool it starts with, a writer ends in a state with the property `I` if it starts in
one. -/
def Keeps (I : σ → Prop) (work : Emit σ α) : Prop :=
  ∀ pool, Task.Keeps I (work pool)

variable {work : Emit σ α}

/-- A value leaves the state alone. -/
theorem keeps_pure (value : α) : Keeps I (pure value : Emit σ α) :=
  fun _ => Task.ensures_pure trivial

/-- Work that only fills the pool leaves the state alone. -/
theorem keeps_pool (work : PoolM α) : Keeps I (liftM work : Emit σ α) :=
  fun pool => Task.keeps_lift (work pool)

/-- What only has an outcome leaves the state alone. -/
theorem keeps_lift (outcome : Except Error α) : Keeps I (liftM outcome : Emit σ α) :=
  keeps_pool (liftM outcome)

/-- A task among writers keeps what it keeps. -/
theorem keeps_task {task : Task σ α} (h : Task.Keeps I task) :
    Keeps I (liftM task : Emit σ α) :=
  fun _ => h.bind fun _ _ => Task.ensures_pure trivial

/-- Writers in sequence keep what both keep. -/
theorem Keeps.bind {next : α → Emit σ β} (h : Keeps I work) (hnext : ∀ value, Keeps I (next value)) :
    Keeps I (work >>= next) :=
  fun pool => (h pool).bind fun found _ => hnext found.1 found.2

/-- Naming the place of an error keeps what the writer keeps. -/
theorem Keeps.within (h : Keeps I work) (fault : WriteFault) : Keeps I (work.within fault) :=
  fun pool => (h pool).within (.write fault)

/-- Going through a list keeps what each item keeps. -/
theorem keeps_mapM {f : α → Emit σ β} {items : List α} (h : ∀ item ∈ items, Keeps I (f item)) :
    Keeps I (items.mapM f) := by
  induction items with
  | nil => exact keeps_pure []
  | cons item items ih =>
      rw [List.mapM_cons]
      have hrest := ih fun other hmem => h other (List.mem_cons_of_mem item hmem)
      exact (h item List.mem_cons_self).bind fun first => hrest.bind fun rest => keeps_pure _

end Emit

end Downlevel
