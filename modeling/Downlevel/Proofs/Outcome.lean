import Mathlib.Data.List.Forall2
import Downlevel.Error

/-!
# Work that succeeds

Almost everything in the library either fails or gives a value, and most of it moves a state on
while it works.  The theory is about the successful runs, so this file says once what a successful
run of composed work consists of: a run of the first part, and a run of the rest from where the
first part ended.

* `bind_eq_ok`, `work_bind_eq_ok`, `task_bind_eq_ok` — the parts of a successful sequence;
* `mapM_eq_ok_iff`, `work_mapM_forall₂`, `task_mapM_forall₂` — going through a list
  successfully is doing the work for each item, so what a single run promises holds item by item;
* `work_mapM_run`, `work_mapM_collects` — what each item does to the state, the whole list does;
* `work_mapM_quiet` — work of which the state shows no trace left no trace at any item.
-/

namespace Downlevel

variable {ε σ α β : Type}

/-- An item of a list stands beside one of another list that goes along with it. -/
theorem exists_zip_of_forall₂ {R : α → β → Prop} {xs : List α} {ys : List β}
    (h : List.Forall₂ R xs ys) {x : α} (hmem : x ∈ xs) : ∃ y, (x, y) ∈ xs.zip ys ∧ R x y := by
  induction h with
  | nil => cases hmem
  | cons hfirst _ ih =>
      rcases List.mem_cons.mp hmem with rfl | hrest
      · exact ⟨_, List.mem_cons_self, hfirst⟩
      · obtain ⟨y, hy, hR⟩ := ih hrest
        exact ⟨y, List.mem_cons_of_mem _ hy, hR⟩

/-- What two lists have to do with each other item by item, seen from an item of the first. -/
theorem exists_right_of_forall₂ {R : α → β → Prop} {xs : List α} {ys : List β}
    (h : List.Forall₂ R xs ys) {x : α} (hmem : x ∈ xs) : ∃ y ∈ ys, R x y := by
  obtain ⟨y, hy, hR⟩ := exists_zip_of_forall₂ h hmem
  exact ⟨y, (List.of_mem_zip hy).2, hR⟩

/-- What two lists have to do with each other item by item, seen from an item of the second. -/
theorem exists_left_of_forall₂ {R : α → β → Prop} {xs : List α} {ys : List β}
    (h : List.Forall₂ R xs ys) {y : β} (hmem : y ∈ ys) : ∃ x ∈ xs, R x y :=
  exists_right_of_forall₂ (R := fun y x => R x y) h.flip hmem

/-- Lists that go along with a third one go along with each other. -/
theorem forall₂_through {γ : Type} {R : α → β → Prop} {S : β → γ → Prop} {T : α → γ → Prop}
    (h : ∀ a b c, R a b → S b c → T a c) {xs : List α} {ys : List β} {zs : List γ}
    (hxs : List.Forall₂ R xs ys) (hzs : List.Forall₂ S ys zs) : List.Forall₂ T xs zs := by
  induction hxs generalizing zs with
  | nil => rw [List.forall₂_nil_left_iff.mp hzs]; exact .nil
  | cons hfirst _ ih =>
      obtain ⟨z, rest, hz, hrest, rfl⟩ := List.forall₂_cons_left_iff.mp hzs
      exact .cons (h _ _ _ hfirst hz) (ih hrest)

/-- A sequence succeeds exactly if both parts do. -/
theorem bind_eq_ok {x : Except ε α} {f : α → Except ε β} {r : β} :
    (x >>= f) = .ok r ↔ ∃ a, x = .ok a ∧ f a = .ok r := by
  cases x <;> simp [bind, Except.bind]

/-- A sequence fails exactly if its first part does, or its second behind that. -/
theorem bind_eq_error {x : Except ε α} {f : α → Except ε β} {e : ε} :
    (x >>= f) = .error e ↔ x = .error e ∨ ∃ a, x = .ok a ∧ f a = .error e := by
  cases x <;> simp [bind, Except.bind]

/-- A value is no error. -/
@[simp] theorem pure_ne_error {a : α} {e : ε} : (pure a : Except ε α) ≠ .error e := by
  simp [pure, Except.pure]

/-- A value is its own outcome. -/
@[simp] theorem pure_eq_ok {a r : α} : (pure a : Except ε α) = .ok r ↔ a = r := by
  simp [pure, Except.pure]

/-- Work that only makes something of an outcome succeeds if there is one. -/
theorem exists_return_eq_ok {x : Except ε α} {f : α → β} :
    (∃ r, (do return f (← x)) = .ok r) ↔ ∃ a, x = .ok a := by
  cases x with
  | error e => simp
  | ok a => exact ⟨fun _ => ⟨a, rfl⟩, fun _ => ⟨f a, rfl⟩⟩

/-- Where an outcome is tested and passes, there is a value that passes. -/
theorem exists_of_any {x : Except ε α} {p : α → Bool} (h : x.toOption.any p = true) :
    ∃ a, x = .ok a ∧ p a = true := by
  cases x with
  | error e => cases h
  | ok a => exact ⟨a, rfl, h⟩

/-- A fault is never a value. -/
@[simp] theorem fail_ne_ok {fault : Fault} {a : α} : (fail fault : Except Error α) ≠ .ok a := by
  simp [fail]

/-- Naming the place of an error does not touch values. -/
@[simp] theorem within_eq_ok {fault : Fault} {x : Except Error α} {a : α} :
    within fault x = .ok a ↔ x = .ok a := by
  cases x <;> simp [within]

/-- An option that is asked for its value has one. -/
@[simp] theorem orFail_eq_ok {fault : Fault} {x : Option α} {a : α} :
    orFail fault x = .ok a ↔ x = some a := by
  cases x <;> simp [orFail, fail]

/-- A list that was gone through successfully was so item by item. -/
theorem mapM_eq_ok_forall₂ {f : α → Except ε β} {items : List α} {results : List β}
    (h : items.mapM f = .ok results) :
    List.Forall₂ (fun item result => f item = .ok result) items results := by
  induction items generalizing results with
  | nil =>
      simp only [List.mapM_nil, pure_eq_ok] at h
      subst h
      exact .nil
  | cons item rest ih =>
      simp only [List.mapM_cons, bind_eq_ok, pure_eq_ok] at h
      obtain ⟨first, hfirst, others, hothers, rfl⟩ := h
      exact .cons hfirst (ih hothers)

/-- **A list is gone through successfully** exactly if each item is. -/
theorem mapM_eq_ok_iff {f : α → Except ε β} {items : List α} {results : List β} :
    items.mapM f = .ok results ↔
      List.Forall₂ (fun item result => f item = .ok result) items results := by
  constructor
  · exact mapM_eq_ok_forall₂
  · intro h
    induction h with
    | nil => rfl
    | cons hfirst _ ih =>
        rw [List.mapM_cons]
        exact bind_eq_ok.mpr ⟨_, hfirst, bind_eq_ok.mpr ⟨_, ih, rfl⟩⟩

section Work

variable {s s' : σ}

/-- Work in sequence succeeds exactly if the parts do, the second from where the first ended. -/
theorem work_bind_eq_ok {x : StateT σ (Except ε) α} {f : α → StateT σ (Except ε) β} {r : β} :
    (x >>= f) s = .ok (r, s') ↔ ∃ a t, x s = .ok (a, t) ∧ f a t = .ok (r, s') := by
  show (x s >>= fun p => f p.1 p.2) = _ ↔ _
  rw [bind_eq_ok]
  constructor
  · rintro ⟨⟨a, t⟩, hx, hf⟩
    exact ⟨a, t, hx, hf⟩
  · rintro ⟨a, t, hx, hf⟩
    exact ⟨(a, t), hx, hf⟩

/-- A value leaves the state alone. -/
@[simp] theorem work_pure_eq_ok {a r : α} :
    (pure a : StateT σ (Except ε) α) s = .ok (r, s') ↔ a = r ∧ s = s' := by
  show (Except.ok (a, s) : Except ε (α × σ)) = _ ↔ _
  simp

/-- Work that only has an outcome leaves the state alone. -/
@[simp] theorem work_lift_eq_ok {x : Except ε α} {r : α} :
    (liftM x : StateT σ (Except ε) α) s = .ok (r, s') ↔ x = .ok r ∧ s = s' := by
  show (x >>= fun a => pure (a, s)) = _ ↔ _
  cases x <;> simp [bind, Except.bind, pure, Except.pure]

/-- Looking at the state. -/
@[simp] theorem work_get_eq_ok {r : σ} :
    (get : StateT σ (Except ε) σ) s = .ok (r, s') ↔ s = r ∧ s = s' := by
  show (Except.ok (s, s) : Except ε (σ × σ)) = _ ↔ _
  simp

/-- Replacing the state. -/
@[simp] theorem work_set_eq_ok {t : σ} {r : PUnit} :
    (set t : StateT σ (Except ε) PUnit) s = .ok (r, s') ↔ t = s' := by
  show (Except.ok (⟨⟩, t) : Except ε (PUnit × σ)) = _ ↔ _
  simp

/-- Changing the state. -/
@[simp] theorem work_modify_eq_ok {f : σ → σ} {r : PUnit} :
    (modify f : StateT σ (Except ε) PUnit) s = .ok (r, s') ↔ f s = s' := by
  show (Except.ok (⟨⟩, f s) : Except ε (PUnit × σ)) = _ ↔ _
  simp

/-- Work in sequence fails exactly if the first part does, or the second where the first ended. -/
theorem work_bind_eq_error {x : StateT σ (Except ε) α} {f : α → StateT σ (Except ε) β} {e : ε} :
    (x >>= f) s = .error e ↔ x s = .error e ∨ ∃ a t, x s = .ok (a, t) ∧ f a t = .error e := by
  show (x s >>= fun p => f p.1 p.2) = _ ↔ _
  rcases x s with e' | ⟨a, t⟩ <;> simp [bind, Except.bind]

/-- A value is no error. -/
@[simp] theorem work_pure_ne_error {a : α} {e : ε} :
    (pure a : StateT σ (Except ε) α) s ≠ .error e := by
  show (Except.ok (a, s) : Except ε (α × σ)) ≠ _
  simp

/-- Looking at the state does not fail. -/
@[simp] theorem work_get_ne_error {e : ε} : (get : StateT σ (Except ε) σ) s ≠ .error e := by
  show (Except.ok (s, s) : Except ε (σ × σ)) ≠ _
  simp

/-- Work that only has an outcome fails if that is an error. -/
@[simp] theorem work_lift_eq_error {x : Except ε α} {e : ε} :
    (liftM x : StateT σ (Except ε) α) s = .error e ↔ x = .error e := by
  show (x >>= fun a => pure (a, s)) = _ ↔ _
  cases x <;> simp [bind, Except.bind, pure, Except.pure]

/-- Where going through a list fails, the work for some item does. -/
theorem work_mapM_error {f : α → StateT σ (Except ε) β} {items : List α} {e : ε}
    (h : items.mapM f s = .error e) : ∃ item ∈ items, ∃ t, f item t = .error e := by
  induction items generalizing s with
  | nil => exact absurd h work_pure_ne_error
  | cons item rest ih =>
      rw [List.mapM_cons, work_bind_eq_error] at h
      rcases h with hfirst | ⟨first, t, -, h⟩
      · exact ⟨item, List.mem_cons_self, s, hfirst⟩
      · rw [work_bind_eq_error] at h
        rcases h with hrest | ⟨others, t', -, hpure⟩
        · obtain ⟨other, hmem, hother⟩ := ih hrest
          exact ⟨other, List.mem_cons_of_mem _ hmem, hother⟩
        · exact absurd hpure work_pure_ne_error

/-- Going through a list with a state is a run of the work for each item. -/
theorem work_mapM_forall₂ {f : α → StateT σ (Except ε) β} {items : List α} {results : List β}
    (h : items.mapM f s = .ok (results, s')) :
    List.Forall₂ (fun item result => ∃ t t', f item t = .ok (result, t')) items results := by
  induction items generalizing s results with
  | nil =>
      simp only [List.mapM_nil, work_pure_eq_ok] at h
      obtain ⟨rfl, _⟩ := h
      exact .nil
  | cons item rest ih =>
      simp only [List.mapM_cons, work_bind_eq_ok, work_pure_eq_ok] at h
      obtain ⟨first, t, hfirst, others, t', hothers, rfl, rfl⟩ := h
      exact .cons ⟨s, t, hfirst⟩ (ih hothers)

/-- What the work for every item does to a state, in the sense of a reflexive and transitive
relation, going through the list does. -/
theorem work_mapM_run {f : α → StateT σ (Except ε) β} (Moves : σ → σ → Prop)
    (refl : ∀ t, Moves t t) (trans : ∀ {t u v}, Moves t u → Moves u v → Moves t v)
    {items : List α}
    (step : ∀ item ∈ items, ∀ t result t', f item t = .ok (result, t') → Moves t t')
    {results : List β} (h : items.mapM f s = .ok (results, s')) : Moves s s' := by
  induction items generalizing s results with
  | nil =>
      simp only [List.mapM_nil, work_pure_eq_ok] at h
      exact h.2 ▸ refl s
  | cons item rest ih =>
      simp only [List.mapM_cons, work_bind_eq_ok, work_pure_eq_ok] at h
      obtain ⟨first, t, hfirst, others, t', hothers, rfl, rfl⟩ := h
      have hhere := step item List.mem_cons_self s first t hfirst
      have hrest := ih (fun other hmem => step other (List.mem_cons_of_mem _ hmem)) hothers
      exact trans hhere hrest

/-- What the work for every item does to a state, together with its results, going through the list
does, together with all results. -/
theorem work_mapM_collects {f : α → StateT σ (Except ε) β} (Moves : σ → List β → σ → Prop)
    (nil : ∀ t, Moves t [] t)
    (append : ∀ {t u v first rest}, Moves t first u → Moves u rest v → Moves t (first ++ rest) v)
    {items : List α}
    (step : ∀ item ∈ items, ∀ t result t', f item t = .ok (result, t') → Moves t [result] t')
    {results : List β} (h : items.mapM f s = .ok (results, s')) : Moves s results s' := by
  induction items generalizing s results with
  | nil =>
      simp only [List.mapM_nil, work_pure_eq_ok] at h
      obtain ⟨rfl, rfl⟩ := h
      exact nil s
  | cons item rest ih =>
      simp only [List.mapM_cons, work_bind_eq_ok, work_pure_eq_ok] at h
      obtain ⟨first, t, hfirst, others, t', hothers, rfl, rfl⟩ := h
      have hhere := step item List.mem_cons_self s first t hfirst
      have hrest := ih (fun other hmem => step other (List.mem_cons_of_mem _ hmem)) hothers
      exact append hhere hrest

/-- If a state is quiet only after work that was quiet and good, then a whole list behind which the
state is quiet was gone through quietly, and each item is good. -/
theorem work_mapM_quiet {f : α → StateT σ (Except ε) β} (Quiet : σ → Prop) (Good : α → β → Prop)
    {items : List α}
    (step : ∀ item ∈ items, ∀ t result t', f item t = .ok (result, t') → Quiet t' →
      Quiet t ∧ Good item result)
    {results : List β} (h : items.mapM f s = .ok (results, s')) (hquiet : Quiet s') :
    Quiet s ∧ List.Forall₂ Good items results := by
  induction items generalizing s results with
  | nil =>
      simp only [List.mapM_nil, work_pure_eq_ok] at h
      obtain ⟨rfl, rfl⟩ := h
      exact ⟨hquiet, .nil⟩
  | cons item rest ih =>
      simp only [List.mapM_cons, work_bind_eq_ok, work_pure_eq_ok] at h
      obtain ⟨first, t, hfirst, others, t', hothers, rfl, rfl⟩ := h
      obtain ⟨hbetween, hrest⟩ :=
        ih (fun other hmem => step other (List.mem_cons_of_mem _ hmem)) hothers
      obtain ⟨hbefore, hgood⟩ := step item List.mem_cons_self s first t hfirst hbetween
      exact ⟨hbefore, .cons hgood hrest⟩

/-- Work that does nothing but compute a value does so for a whole list. -/
theorem work_mapM_of_pure (items : List α) {f : α → StateT σ (Except ε) β} {g : α → β}
    (step : ∀ item ∈ items, ∀ t, f item t = .ok (g item, t)) (s : σ) :
    items.mapM f s = .ok (items.map g, s) := by
  induction items with
  | nil => simp
  | cons item rest ih =>
      have hrest := ih fun other hmem => step other (List.mem_cons_of_mem _ hmem)
      simp only [List.mapM_cons, List.map_cons, work_bind_eq_ok, work_pure_eq_ok]
      exact ⟨_, _, step item List.mem_cons_self s, _, _, hrest, rfl, rfl⟩

end Work

section Tasks

variable {s s' : σ}

/-- Tasks in sequence succeed exactly if the parts do, the second from where the first ended. -/
theorem task_bind_eq_ok {x : Task σ α} {f : α → Task σ β} {r : β} :
    (x >>= f) s = (.ok r, s') ↔ ∃ a t, x s = (.ok a, t) ∧ f a t = (.ok r, s') := by
  show ExceptT.bindCont f (x s).1 (x s).2 = _ ↔ _
  obtain ⟨outcome, t⟩ := x s
  cases outcome with
  | error error =>
      constructor
      · intro h
        cases h
      · rintro ⟨_, _, hx, _⟩
        cases hx
  | ok a =>
      constructor
      · intro h
        exact ⟨a, t, rfl, h⟩
      · rintro ⟨b, u, hx, hf⟩
        cases hx
        exact hf

/-- Tasks in sequence go on where the first one succeeds. -/
theorem task_bind_of_ok {x : Task σ α} {f : α → Task σ β} {a : α} (h : x s = (.ok a, s')) :
    (x >>= f) s = f a s' := by
  show ExceptT.bindCont f (x s).1 (x s).2 = _
  rw [h]
  rfl

/-- Tasks in sequence end where the first one fails. -/
theorem task_bind_of_error {x : Task σ α} {f : α → Task σ β} {error : Error}
    (h : x s = (.error error, s')) : (x >>= f) s = (.error error, s') := by
  show ExceptT.bindCont f (x s).1 (x s).2 = _
  rw [h]
  rfl

/-- A value leaves the state alone. -/
@[simp] theorem task_pure_eq_ok {a r : α} :
    (pure a : Task σ α) s = (.ok r, s') ↔ a = r ∧ s = s' := by
  show ((Except.ok a, s) : Except Error α × σ) = _ ↔ _
  simp

/-- A task that only has an outcome leaves the state alone. -/
@[simp] theorem task_lift_eq_ok {x : Except Error α} {r : α} :
    (liftM x : Task σ α) s = (.ok r, s') ↔ x = .ok r ∧ s = s' := by
  show ((x, s) : Except Error α × σ) = _ ↔ _
  simp

/-- Naming the place of an error does not touch values. -/
@[simp] theorem task_within_eq_ok {fault : Fault} {x : Task σ α} {r : α} :
    Task.within fault x s = (.ok r, s') ↔ x s = (.ok r, s') := by
  unfold Task.within
  rcases x s with ⟨_ | a, t⟩
  · constructor <;> intro h <;> cases h
  · exact Iff.rfl

/-- Going through a list by tasks is a run of the task for each item. -/
theorem task_mapM_forall₂ {f : α → Task σ β} {items : List α} {results : List β}
    (h : items.mapM f s = (.ok results, s')) :
    List.Forall₂ (fun item result => ∃ t t', f item t = (.ok result, t')) items results := by
  induction items generalizing s results with
  | nil =>
      simp only [List.mapM_nil, task_pure_eq_ok] at h
      obtain ⟨rfl, _⟩ := h
      exact .nil
  | cons item rest ih =>
      simp only [List.mapM_cons, task_bind_eq_ok, task_pure_eq_ok] at h
      obtain ⟨first, t, hfirst, others, t', hothers, rfl, rfl⟩ := h
      exact .cons ⟨s, t, hfirst⟩ (ih hothers)

end Tasks

end Downlevel
