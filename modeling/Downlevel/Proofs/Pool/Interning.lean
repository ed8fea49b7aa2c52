import Downlevel.Proofs.Pool.Growth

/-!
# What is put again

A pool gives out one index for each entry, so work that put something before gives the same results
when it is done again, and does not change the pool then.  That stays so however much the pool has
grown in between.  Work that does not change the pool consists of parts that do not.

* `Pool.Builder.Grows` — a pool has all entries and bootstrap methods of another one;
* `PoolM.Interns` — work that gives the same again;
* `PoolM.settled_bind` — the parts of work that does not change the pool;
* `PoolM.settled_mapM` — everything that was put gives the same again at the end.
-/

namespace Downlevel

namespace Pool.Builder

/-- One pool has all entries and all bootstrap methods of another one, each at its index. -/
structure Grows (pool pool' : Builder) : Prop where
  entries : pool.Within pool'
  bootstraps : ∀ (placed : PlacedBootstrap) (n : Nat), pool.bootstrapIndex[placed]? = some n →
    pool'.bootstrapIndex[placed]? = some n

/-- A pool has all that it has. -/
theorem Grows.refl (pool : Builder) : pool.Grows pool :=
  ⟨.refl pool, fun _ _ h => h⟩

/-- A pool that grows twice has all that it had at first. -/
theorem Grows.trans {pool between pool' : Builder} (h : pool.Grows between)
    (h' : between.Grows pool') : pool.Grows pool' :=
  ⟨h.entries.trans h'.entries, fun placed n hn => h'.bootstraps placed n (h.bootstraps placed n hn)⟩

end Pool.Builder

namespace PoolM

open Pool

/-- Work that only adds to the pool, and gives the same when it is done again later, when it adds
nothing. -/
class Interns {α : Type} (work : PoolM α) : Prop where
  grows : ∀ {pool value pool'}, work pool = .ok (value, pool') → pool.Grows pool'
  again : ∀ {pool value pool' later}, work pool = .ok (value, pool') → pool'.Grows later →
    work later = .ok (value, later)

section Instances

variable {α β : Type} {work : PoolM α} {next : α → PoolM β} {pool pool' : Builder}

instance (value : α) : Interns (pure value : PoolM α) where
  grows h := by
    obtain ⟨_, rfl⟩ := work_pure_eq_ok.mp h
    exact .refl _
  again h _ := by
    obtain ⟨rfl, _⟩ := work_pure_eq_ok.mp h
    rfl

instance [Interns work] [∀ value, Interns (next value)] : Interns (work >>= next) where
  grows h := by
    obtain ⟨value, between, hfirst, hsecond⟩ := work_bind_eq_ok.mp h
    exact (Interns.grows hfirst).trans (Interns.grows hsecond)
  again h hlater := by
    obtain ⟨value, between, hfirst, hsecond⟩ := work_bind_eq_ok.mp h
    have hbetween := (Interns.grows hsecond).trans hlater
    exact work_bind_eq_ok.mpr
      ⟨value, _, Interns.again hfirst hbetween, Interns.again hsecond hlater⟩

/-- What a pool has is not put again. -/
theorem put_known {item : Entry} {index : UInt16} (h : pool.index[item]? = some index) :
    put item pool = .ok (index, pool) := by
  unfold put
  simp only [h]

instance (item : Entry) : Interns (put item) where
  grows {pool index pool'} h := by
    refine ⟨Enlarges.within h, fun placed n hn => ?_⟩
    unfold put at h
    split at h
    next =>
      cases h
      exact hn
    next =>
      split at h
      next =>
        cases h
        exact hn
      next => cases h
  again h hlater := put_known (hlater.entries _ _ (index_put h))

/-- A bootstrap method that is put has its index afterwards. -/
theorem index_bootstrap {placed : PlacedBootstrap} {index : UInt16}
    (h : bootstrap placed pool = .ok (index, pool')) :
    ∃ n, pool'.bootstrapIndex[placed]? = some n ∧ index = n.toUInt16 := by
  unfold bootstrap at h
  split at h
  next n hn =>
    cases h
    exact ⟨n, hn, rfl⟩
  next =>
    dsimp only at h
    split at h
    next =>
      cases h
      exact ⟨_, Std.HashMap.getElem?_insert_self, rfl⟩
    next => cases h

instance (placed : PlacedBootstrap) : Interns (bootstrap placed) where
  grows {pool index pool'} h := by
    unfold bootstrap at h
    split at h
    next =>
      cases h
      exact .refl _
    next hunknown =>
      dsimp only at h
      split at h
      next =>
        cases h
        refine ⟨.refl _, fun other n hn => ?_⟩
        show (pool.bootstrapIndex.insert placed pool.bootstraps.size)[other]? = _
        rw [Std.HashMap.getElem?_insert, if_neg]
        · exact hn
        · intro heq
          cases (eq_of_beq heq ▸ hunknown).symm.trans hn
      next => cases h
  again {pool index pool' later} h hlater := by
    obtain ⟨n, hn, rfl⟩ := index_bootstrap h
    unfold bootstrap
    simp only [hlater.bootstraps _ _ hn]

instance (value : JavaString) : Interns (javaUtf8 value) := inferInstanceAs (Interns (put _))

instance (value : String) : Interns (utf8 value) := inferInstanceAs (Interns (put _))

instance (name : ClassName) : Interns (cls name) := inferInstanceAs (Interns (utf8 _ >>= _))

instance (name : PackageName) : Interns (package name) := inferInstanceAs (Interns (utf8 _ >>= _))

instance (name : ModuleName) : Interns (module name) := inferInstanceAs (Interns (utf8 _ >>= _))

instance (name descriptor : String) : Interns (nameAndType name descriptor) :=
  inferInstanceAs (Interns (utf8 _ >>= fun _ => utf8 _ >>= _))

instance (field : FieldRef) : Interns (fieldRef field) :=
  inferInstanceAs (Interns (cls _ >>= fun _ => nameAndType _ _ >>= _))

instance (method : MethodRef) (onInterface : Bool) : Interns (methodRef method onInterface) :=
  inferInstanceAs (Interns (cls _ >>= fun _ => nameAndType _ _ >>= _))

instance (value : JavaString) : Interns (string value) :=
  inferInstanceAs (Interns (javaUtf8 _ >>= _))

instance (value : Handle) : Interns (handle value) := by
  cases value with
  | field use field => exact inferInstanceAs (Interns (fieldRef _ >>= _))
  | method use method => exact inferInstanceAs (Interns (methodRef _ _ >>= _))

mutual

/-- A value that is loaded has one index. -/
theorem interns_loadable : ∀ value : Loadable, Interns (loadable value)
  | .int _ | .float _ | .long _ | .double _ | .cls _ | .string _ | .handle _ | .methodType _ => by
      unfold loadable
      infer_instance
  | .dynamic _ _ _ arguments => by
      have harguments := interns_loadables arguments
      unfold loadable
      infer_instance

/-- Values that are loaded have one index each. -/
theorem interns_loadables : ∀ values : List Loadable, Interns (loadables values)
  | [] => by
      unfold loadables
      infer_instance
  | value :: rest => by
      have hvalue := interns_loadable value
      have hrest := interns_loadables rest
      unfold loadables
      infer_instance

end

instance (value : Loadable) : Interns (loadable value) := interns_loadable value

instance (values : List Loadable) : Interns (loadables values) := interns_loadables values

instance (site : CallSite) : Interns (callSite site) := by
  unfold callSite
  infer_instance

instance (value : ConstantValue) : Interns (constantValue value) := by
  unfold constantValue
  cases value <;> infer_instance

/-- **Work that does not change the pool consists of parts that do not.** -/
theorem settled_bind {w : PoolM α} [Interns w] [∀ value, Interns (next value)] {result : β}
    (h : (w >>= next) pool = .ok (result, pool)) :
    ∃ value, w pool = .ok (value, pool) ∧ next value pool = .ok (result, pool) := by
  obtain ⟨value, between, hfirst, hsecond⟩ := work_bind_eq_ok.mp h
  have hagain := Interns.again hfirst (Interns.grows hsecond)
  cases hfirst.symm.trans hagain
  exact ⟨value, hfirst, hsecond⟩

/-- **Whatever was put gives the same again at the end.** -/
theorem settled_mapM {work : α → PoolM β} [∀ item, Interns (work item)] {items : List α}
    {results : List β} (h : items.mapM work pool = .ok (results, pool')) :
    List.Forall₂ (fun item result => work item pool' = .ok (result, pool')) items results := by
  suffices hall : pool.Grows pool' ∧ ∀ later, pool'.Grows later →
      List.Forall₂ (fun item result => work item later = .ok (result, later)) items results from
    hall.2 pool' (.refl pool')
  induction items generalizing pool results with
  | nil =>
      rw [List.mapM_nil] at h
      obtain ⟨rfl, rfl⟩ := work_pure_eq_ok.mp h
      exact ⟨.refl _, fun _ _ => .nil⟩
  | cons item items ih =>
      rw [List.mapM_cons] at h
      obtain ⟨first, between, hfirst, h⟩ := work_bind_eq_ok.mp h
      obtain ⟨rest, _, hrest, h⟩ := work_bind_eq_ok.mp h
      obtain ⟨rfl, rfl⟩ := work_pure_eq_ok.mp h
      obtain ⟨hgrows, hothers⟩ := ih hrest
      exact ⟨(Interns.grows hfirst).trans hgrows, fun later hlater =>
        .cons (Interns.again hfirst (hgrows.trans hlater)) (hothers later hlater)⟩

end Instances

end PoolM

end Downlevel
