import Downlevel.Proofs.Accessor.Listing
import Downlevel.Proofs.Outcome

/-!
# A constant is computed at most once

Any number of threads run the accessor of a dynamic constant.  A thread is always at one of a few
places, and at each of them it knows something about the store: whether it owns the lock, whether
the value was computed, stored and told of, and which exception it caught.  What it knows stays
true while other threads run, since only the owner of the lock writes the fields.

* `Knows.of_undisturbed` — what a thread knows outlives the steps of other threads;
* `At.turn` — what a thread at a place can do next, and where that takes it;
* `inv_step`, `inv_of_reachable` — the invariant of all threads together;
* `Inv.can_move` — a thread can always go on, unless another one owns the lock it waits for;
* `Constants.accessor_computes_once` — whatever the order of the steps, the bootstrap method gives
  at most one value, everyone gets that value, and the lock is always given back.
-/

namespace Downlevel

open Threads

namespace Constants

/-- The code of an accessor with its call and its fields. -/
def accessorProgram (cls : ClassName) (name : String) (constant : Dynamic) (code : Code)
    (callLength : Nat) : Program where
  code := code
  callStart := 8
  callLength := callLength
  fields := [valueField cls name constant, flagField cls name, lockField cls name]

section Spec

variable {Thread V : Type} [DecidableEq Thread] [DecidableEq V]

/-- Nothing has happened yet: the flag is not set, the lock is there, and no thread has started. -/
structure Untouched (cls : ClassName) (name : String) (lock : V) (state : State Thread V) :
    Prop where
  flag : state.store.statics (flagField cls name) = .int 0
  lockObject : state.store.statics (lockField cls name) = .other lock
  monitors : ∀ monitor, state.store.monitors monitor = none
  objects : state.store.objects = []
  history : state.store.history = []
  threads : ∀ thread, state.threads thread = Status.start

/-- What is promised of an accessor, whatever its threads have done. -/
structure ComputedOnce (cls : ClassName) (name : String) (constant : Dynamic) (lock : V)
    (state : State Thread V) : Prop where
  /-- At most one thread is between taking the lock and giving it back. -/
  exclusive : ∀ thread other, state.store.IsBetween thread → state.store.IsBetween other →
    thread = other
  /-- The bootstrap method has left at most one value. -/
  once : state.store.results.length ≤ 1
  /-- The flag is only set once that value is stored. -/
  stored : state.store.statics (flagField cls name) ≠ .int 0 →
    ∃ value, state.store.results = [value] ∧
      state.store.statics (valueField cls name constant) = .other value
  /-- Every thread that returned got that value. -/
  returned : ∀ thread result, state.threads thread = .returned result →
    ∃ value, state.store.results = [value] ∧ result = .other value
  /-- A thread that returned or threw does not own the lock. -/
  released : ∀ thread, (state.threads thread).IsDone →
    ¬ state.store.OwnsMonitor thread (.other lock)
  /-- A thread only throws an error around the exception that it caught. -/
  threw : ∀ thread thrown, state.threads thread = .threw thrown →
    ∃ index exception, thrown = .object index ∧
      state.store.objects[index]? = some ⟨bootstrapError, some (.other exception), thread⟩ ∧
      Deed.lastFailure thread state.store.history = some exception

end Spec

namespace Accessor

section Store

variable (cls : ClassName) (name : String) (constant : Dynamic) {Thread V : Type}
  (lock : V)

/-- A thread owns the lock, having taken it once. -/
def Owns (store : Store Thread V) (thread : Thread) : Prop :=
  store.monitors (.other lock) = some (thread, 1)

/-- No value was computed. -/
def Fresh (store : Store Thread V) : Prop :=
  store.statics (flagField cls name) = .int 0 ∧ store.results = []

/-- A value was computed, stored and told of. -/
def Published (store : Store Thread V) (value : V) : Prop :=
  store.statics (flagField cls name) = .int 1 ∧
    store.statics (valueField cls name constant) = .other value ∧ store.results = [value]

section

variable {cls name constant lock} {store : Store Thread V} {thread other : Thread}

/-- Only one thread owns the lock. -/
theorem Owns.unique (h : Owns lock store thread) (h' : Owns lock store other) :
    other = thread := by
  have hsame : some (other, 1) = some (thread, 1) := h'.symm.trans h
  exact congrArg Prod.fst (Option.some.inj hsame)

/-- A lock that is owned is not free. -/
theorem Owns.not_free (h : Owns lock store thread) : store.monitors (.other lock) ≠ none := by
  rw [h]
  simp

/-- The flag tells of a value that was told of. -/
theorem Published.not_fresh {value : V} (h : Published cls name constant store value) :
    store.statics (flagField cls name) ≠ .int 0 := by
  rw [h.1]
  simp

end

/-- What a thread can know. -/
inductive Knowledge (V : Type) where
  /-- It does not own the lock. -/
  | outside
  /-- It owns the lock, and no value was computed. -/
  | fresh
  /-- It owns the lock and computed a value. -/
  | computed (value : V)
  /-- It owns the lock, and stored the value it computed. -/
  | stored (value : V)
  /-- It owns the lock, and a value was told of. -/
  | guarded (value : V)
  /-- It does not own the lock, and a value was told of. -/
  | published (value : V)
  /-- It owns the lock, and its call threw. -/
  | caught (exception : V)
  /-- It does not own the lock, and its call threw. -/
  | failed (exception : V)
  /-- It then made an error. -/
  | made (exception : V) (index : Nat)
  /-- The error has what was thrown as its cause. -/
  | wrapped (exception : V) (index : Nat)

variable [DecidableEq Thread]

/-- What a thread knows is so. -/
def Knows (store : Store Thread V) (thread : Thread) : Knowledge V → Prop
  | .outside => ¬ Owns lock store thread
  | .fresh => Owns lock store thread ∧ Fresh cls name store
  | .computed value =>
      Owns lock store thread ∧ store.statics (flagField cls name) = .int 0 ∧
        store.results = [value]
  | .stored value =>
      Owns lock store thread ∧ store.statics (flagField cls name) = .int 0 ∧
        store.results = [value] ∧ store.statics (valueField cls name constant) = .other value
  | .guarded value => Owns lock store thread ∧ Published cls name constant store value
  | .published value => ¬ Owns lock store thread ∧ Published cls name constant store value
  | .caught exception =>
      Owns lock store thread ∧ Fresh cls name store ∧
        Deed.lastFailure thread store.history = some exception
  | .failed exception =>
      ¬ Owns lock store thread ∧ Deed.lastFailure thread store.history = some exception
  | .made exception index =>
      ¬ Owns lock store thread ∧ Deed.lastFailure thread store.history = some exception ∧
        store.objects[index]? = some ⟨bootstrapError, none, thread⟩
  | .wrapped exception index =>
      ¬ Owns lock store thread ∧ Deed.lastFailure thread store.history = some exception ∧
        store.objects[index]? = some ⟨bootstrapError, some (.other exception), thread⟩

/-- What is always so of the store. -/
structure Sound (store : Store Thread V) : Prop where
  lockObject : store.statics (lockField cls name) = .other lock
  /-- No thread takes the lock twice. -/
  once : ∀ thread count, store.monitors (.other lock) = some (thread, count) → count = 1
  owner : ∀ thread, Owns lock store thread →
    Deed.enteredBy thread store.history = Deed.leftBy thread store.history + 1
  others : ∀ thread, ¬ Owns lock store thread →
    Deed.enteredBy thread store.history = Deed.leftBy thread store.history
  /-- While nobody owns the lock, nothing is half done. -/
  settled : store.monitors (.other lock) = none →
    Fresh cls name store ∨ ∃ value, Published cls name constant store value
  phase : (store.statics (flagField cls name) = .int 0 ∧ store.results.length ≤ 1) ∨
    ∃ value, Published cls name constant store value

/-- What a step of one thread leaves as it is for the others. -/
structure Undisturbed (thread : Thread) (store store' : Store Thread V) : Prop where
  published : ∀ value, Published cls name constant store value →
    Published cls name constant store' value
  owner : ∀ other, other ≠ thread → Owns lock store other →
    Owns lock store' other ∧
      store'.statics (flagField cls name) = store.statics (flagField cls name) ∧
      store'.statics (valueField cls name constant) =
        store.statics (valueField cls name constant) ∧
      store'.results = store.results
  others : ∀ other, other ≠ thread → ¬ Owns lock store other → ¬ Owns lock store' other
  objects : ∀ (index : Nat) (object : Object Thread V), store.objects[index]? = some object →
    object.maker ≠ thread → store'.objects[index]? = some object
  failures : ∀ other, other ≠ thread →
    Deed.lastFailure other store'.history = Deed.lastFailure other store.history

/-- What a step of a thread comes to: the store is as it should be, the others are undisturbed, and
the thread knows something. -/
def Reaches (thread : Thread) (store store' : Store Thread V) (knowledge : Knowledge V) : Prop :=
  Sound cls name constant lock store' ∧ Undisturbed cls name constant lock thread store store' ∧
    Knows cls name constant lock store' thread knowledge

variable {cls name constant lock} {store store' : Store Thread V} {thread other : Thread}

/-- **What a thread knows outlives the steps of other threads.** -/
theorem Knows.of_undisturbed {knowledge : Knowledge V}
    (h : Knows cls name constant lock store other knowledge)
    (hstep : Undisturbed cls name constant lock thread store store') (hne : other ≠ thread) :
    Knows cls name constant lock store' other knowledge := by
  have hobject : ∀ (index : Nat) (cause : Option (Value V)),
      store.objects[index]? = some ⟨bootstrapError, cause, other⟩ →
        store'.objects[index]? = some ⟨bootstrapError, cause, other⟩ :=
    fun index cause hsome => hstep.objects index _ hsome hne
  cases knowledge with
  | outside => exact hstep.others other hne h
  | fresh =>
      obtain ⟨howns, hflag, hresults⟩ := h
      obtain ⟨howns', hflag', _, hresults'⟩ := hstep.owner other hne howns
      exact ⟨howns', hflag'.trans hflag, hresults'.trans hresults⟩
  | computed value =>
      obtain ⟨howns, hflag, hresults⟩ := h
      obtain ⟨howns', hflag', _, hresults'⟩ := hstep.owner other hne howns
      exact ⟨howns', hflag'.trans hflag, hresults'.trans hresults⟩
  | stored value =>
      obtain ⟨howns, hflag, hresults, hvalue⟩ := h
      obtain ⟨howns', hflag', hvalue', hresults'⟩ := hstep.owner other hne howns
      exact ⟨howns', hflag'.trans hflag, hresults'.trans hresults, hvalue'.trans hvalue⟩
  | guarded value => exact ⟨(hstep.owner other hne h.1).1, hstep.published value h.2⟩
  | published value => exact ⟨hstep.others other hne h.1, hstep.published value h.2⟩
  | caught exception =>
      obtain ⟨howns, ⟨hflag, hresults⟩, hfailure⟩ := h
      obtain ⟨howns', hflag', _, hresults'⟩ := hstep.owner other hne howns
      exact ⟨howns', ⟨hflag'.trans hflag, hresults'.trans hresults⟩,
        (hstep.failures other hne).trans hfailure⟩
  | failed exception =>
      exact ⟨hstep.others other hne h.1, (hstep.failures other hne).trans h.2⟩
  | made exception index =>
      obtain ⟨hnot, hfailure, hsome⟩ := h
      exact ⟨hstep.others other hne hnot, (hstep.failures other hne).trans hfailure,
        hobject index _ hsome⟩
  | wrapped exception index =>
      obtain ⟨hnot, hfailure, hsome⟩ := h
      exact ⟨hstep.others other hne hnot, (hstep.failures other hne).trans hfailure,
        hobject index _ hsome⟩

/-! ## What each kind of step does to the store -/

/-- A thread that does nothing to the store disturbs nobody. -/
theorem Undisturbed.refl (thread : Thread) (store : Store Thread V) :
    Undisturbed cls name constant lock thread store store :=
  ⟨fun _ => id, fun _ _ howns => ⟨howns, rfl, rfl, rfl⟩, fun _ _ => id, fun _ _ h _ => h,
    fun _ _ => rfl⟩

/-- A thread that leaves the store as it is reaches what it knows. -/
theorem reaches_same {knowledge : Knowledge V} (hsound : Sound cls name constant lock store)
    (hknows : Knows cls name constant lock store thread knowledge) :
    Reaches cls name constant lock thread store store knowledge :=
  ⟨hsound, .refl thread store, hknows⟩

/-- The owner of the lock may write while no value was told of. -/
theorem owner_writes (store' : Store Thread V) (hsound : Sound cls name constant lock store)
    (howns : Owns lock store thread) (hflag : store.statics (flagField cls name) = .int 0)
    (hlock : store'.statics (lockField cls name) = store.statics (lockField cls name))
    (hmonitors : store'.monitors = store.monitors) (hobjects : store'.objects = store.objects)
    (hentered : ∀ other,
      Deed.enteredBy other store'.history = Deed.enteredBy other store.history)
    (hleft : ∀ other, Deed.leftBy other store'.history = Deed.leftBy other store.history)
    (hfailures : ∀ other, other ≠ thread →
      Deed.lastFailure other store'.history = Deed.lastFailure other store.history)
    (hphase : (store'.statics (flagField cls name) = .int 0 ∧ store'.results.length ≤ 1) ∨
      ∃ value, Published cls name constant store' value)
    {knowledge : Knowledge V} (hknows : Knows cls name constant lock store' thread knowledge) :
    Reaches cls name constant lock thread store store' knowledge := by
  have howner : ∀ other, Owns lock store' other ↔ Owns lock store other := by
    intro other
    rw [Owns, Owns, hmonitors]
  refine ⟨⟨hlock.trans hsound.lockObject, ?_, ?_, ?_, ?_, hphase⟩, ⟨?_, ?_, ?_, ?_, hfailures⟩,
    hknows⟩
  · intro other count hsome
    exact hsound.once other count (hmonitors ▸ hsome)
  · intro other howns'
    rw [hentered, hleft]
    exact hsound.owner other ((howner other).mp howns')
  · intro other hnot
    rw [hentered, hleft]
    exact hsound.others other fun howns' => hnot ((howner other).mpr howns')
  · intro hnone
    exact absurd (hmonitors ▸ hnone) howns.not_free
  · intro value hpublished
    exact absurd hflag hpublished.not_fresh
  · intro other hne howns'
    exact absurd (howns.unique howns') hne
  · exact fun other _ hnot howns' => hnot ((howner other).mp howns')
  · intro index object hsome _
    rw [hobjects]
    exact hsome

/-- **A call that leaves a value.** -/
theorem reaches_computed (hsound : Sound cls name constant lock store)
    (hknows : Knows cls name constant lock store thread .fresh) (value : V)
    {statics : FieldRef → Value V}
    (hfields : ∀ field ∈ [valueField cls name constant, flagField cls name, lockField cls name],
      statics field = store.statics field) :
    Reaches cls name constant lock thread store (store.call statics (.computed thread value))
      (.computed value) := by
  obtain ⟨howns, hflag, hresults⟩ := hknows
  have hflag' : (store.call statics (.computed thread value)).statics (flagField cls name) =
      .int 0 := (hfields _ (by simp)).trans hflag
  have hresults' : (store.call statics (.computed thread value)).results = [value] := by
    show value :: store.results = [value]
    rw [hresults]
  have hphase : (store.call statics (.computed thread value)).results.length ≤ 1 := by
    rw [hresults']
    exact Nat.le_refl 1
  exact owner_writes (store.call statics (.computed thread value)) hsound howns hflag
    (hfields _ (by simp)) rfl rfl (fun _ => rfl) (fun _ => rfl) (fun _ _ => rfl)
    (.inl ⟨hflag', hphase⟩) ⟨howns, hflag', hresults'⟩

/-- **A call that throws.** -/
theorem reaches_failed (hsound : Sound cls name constant lock store)
    (hknows : Knows cls name constant lock store thread .fresh) (exception : V)
    {statics : FieldRef → Value V}
    (hfields : ∀ field ∈ [valueField cls name constant, flagField cls name, lockField cls name],
      statics field = store.statics field) :
    Reaches cls name constant lock thread store (store.call statics (.failed thread exception))
      (.caught exception) := by
  obtain ⟨howns, hflag, hresults⟩ := hknows
  have hflag' : (store.call statics (.failed thread exception)).statics (flagField cls name) =
      .int 0 := (hfields _ (by simp)).trans hflag
  have hfailure : Deed.lastFailure thread (store.call statics (.failed thread exception)).history =
      some exception := by
    simp [Store.call, Deed.lastFailure]
  have hphase : (store.call statics (.failed thread exception)).results.length ≤ 1 := by
    show store.results.length ≤ 1
    rw [hresults]
    exact Nat.zero_le 1
  exact owner_writes (store.call statics (.failed thread exception)) hsound howns hflag
    (hfields _ (by simp)) rfl rfl (fun _ => rfl) (fun _ => rfl)
    (fun other hne => by simp [Store.call, Deed.lastFailure, hne.symm])
    (.inl ⟨hflag', hphase⟩) ⟨howns, ⟨hflag', hresults⟩, hfailure⟩

/-- **Storing the value** that was computed. -/
theorem reaches_putValue (hsound : Sound cls name constant lock store) {value : V}
    (hknows : Knows cls name constant lock store thread (.computed value)) :
    Reaches cls name constant lock thread store
      (store.put (valueField cls name constant) (.other value)) (.stored value) := by
  obtain ⟨howns, hflag, hresults⟩ := hknows
  have hflag' : (store.put (valueField cls name constant) (.other value)).statics
      (flagField cls name) = .int 0 :=
    (Function.update_of_ne flagField_ne_valueField _ _).trans hflag
  have hphase : (store.put (valueField cls name constant) (.other value)).results.length ≤ 1 := by
    show store.results.length ≤ 1
    rw [hresults]
    exact Nat.le_refl 1
  exact owner_writes (store.put (valueField cls name constant) (.other value)) hsound howns hflag
    (Function.update_of_ne lockField_ne_valueField _ _) rfl rfl (fun _ => rfl) (fun _ => rfl)
    (fun _ _ => rfl) (.inl ⟨hflag', hphase⟩)
    ⟨howns, hflag', hresults, Function.update_self _ _ _⟩

/-- **Telling of the value** that was stored. -/
theorem reaches_putFlag (hsound : Sound cls name constant lock store) {value : V}
    (hknows : Knows cls name constant lock store thread (.stored value)) :
    Reaches cls name constant lock thread store (store.put (flagField cls name) (.int 1))
      (.guarded value) := by
  obtain ⟨howns, hflag, hresults, hvalue⟩ := hknows
  have hpublished : Published cls name constant (store.put (flagField cls name) (.int 1)) value :=
    ⟨Function.update_self _ _ _,
      (Function.update_of_ne flagField_ne_valueField.symm _ _).trans hvalue, hresults⟩
  exact owner_writes (store.put (flagField cls name) (.int 1)) hsound howns hflag
    (Function.update_of_ne lockField_ne_flagField _ _) rfl rfl (fun _ => rfl) (fun _ => rfl)
    (fun _ _ => rfl) (.inr ⟨value, hpublished⟩) ⟨howns, hpublished⟩

/-- **Making the error** for an exception that was caught. -/
theorem reaches_make (hsound : Sound cls name constant lock store) {exception : V}
    (hknows : Knows cls name constant lock store thread (.failed exception)) :
    Reaches cls name constant lock thread store (store.make thread bootstrapError)
      (.made exception store.objects.length) := by
  obtain ⟨hnot, hfailure⟩ := hknows
  refine ⟨⟨hsound.lockObject, hsound.once, hsound.owner, hsound.others, hsound.settled,
    hsound.phase⟩, ⟨fun _ => id, fun _ _ howns => ⟨howns, rfl, rfl, rfl⟩, fun _ _ => id, ?_,
    fun _ _ => rfl⟩, hnot, hfailure, ?_⟩
  · intro index object hsome _
    exact List.getElem?_append_left (List.getElem?_eq_some_iff.mp hsome).1 ▸ hsome
  · exact List.getElem?_concat_length ..

/-- **Giving the error its cause.** -/
theorem reaches_construct (hsound : Sound cls name constant lock store) {exception : V}
    {index : Nat} (hknows : Knows cls name constant lock store thread (.made exception index)) :
    Reaches cls name constant lock thread store (store.construct index (.other exception))
      (.wrapped exception index) := by
  obtain ⟨hnot, hfailure, hobject⟩ := hknows
  refine ⟨⟨hsound.lockObject, hsound.once, hsound.owner, hsound.others, hsound.settled,
    hsound.phase⟩, ⟨fun _ => id, fun _ _ howns => ⟨howns, rfl, rfl, rfl⟩, fun _ _ => id, ?_,
    fun _ _ => rfl⟩, hnot, hfailure, ?_⟩
  · intro place object hsome hmaker
    -- The object that is given a cause was made by this thread, so it is another one.
    have hne : index ≠ place := by
      rintro rfl
      rw [hobject] at hsome
      cases hsome
      exact hmaker rfl
    simpa [Store.construct, List.getElem?_modify, hne] using hsome
  · simp [Store.construct, hobject]

variable [DecidableEq V]

/-- **Taking the lock** when nobody has it. -/
theorem reaches_enter (thread : Thread) (hsound : Sound cls name constant lock store)
    (hfree : store.monitors (.other lock) = none) :
    ∃ knowledge, (knowledge = .fresh ∨ ∃ value, knowledge = .guarded value) ∧
      Reaches cls name constant lock thread store (store.enter thread (.other lock) 1)
        knowledge := by
  have hnobody : ∀ other, ¬ Owns lock store other := by
    intro other howns
    rw [Owns, hfree] at howns
    cases howns
  have hmonitor : (store.enter thread (.other lock) 1).monitors (.other lock) = some (thread, 1) :=
    Function.update_self _ _ _
  have hiff : ∀ other, Owns lock (store.enter thread (.other lock) 1) other → other = thread :=
    fun other howns => Owns.unique hmonitor howns
  have hresults : (store.enter thread (.other lock) 1).results = store.results := rfl
  have hsound' : Sound cls name constant lock (store.enter thread (.other lock) 1) := by
    refine ⟨hsound.lockObject, ?_, ?_, ?_, ?_, hsound.phase⟩
    · intro other count hsome
      rw [hmonitor] at hsome
      cases hsome
      rfl
    · intro other howns
      obtain rfl := hiff other howns
      have hbefore := hsound.others other (hnobody other)
      simp [Store.enter, Deed.enteredBy, Deed.leftBy] at hbefore ⊢
      omega
    · intro other hnot
      have hne : thread ≠ other := by
        rintro rfl
        exact hnot hmonitor
      have hbefore := hsound.others other (hnobody other)
      simpa [Store.enter, Deed.enteredBy, Deed.leftBy, hne] using hbefore
    · intro hnone
      rw [hmonitor] at hnone
      cases hnone
  have hundisturbed : Undisturbed cls name constant lock thread store
      (store.enter thread (.other lock) 1) :=
    ⟨fun _ => id, fun other _ howns => (hnobody other howns).elim,
      fun other hne _ howns => hne (hiff other howns), fun _ _ h _ => h, fun _ _ => rfl⟩
  rcases hsound.settled hfree with hfresh | ⟨value, hpublished⟩
  · exact ⟨.fresh, .inl rfl, hsound', hundisturbed, hmonitor, hfresh⟩
  · exact ⟨.guarded value, .inr ⟨value, rfl⟩, hsound', hundisturbed, hmonitor, hpublished⟩

/-- **Giving the lock back** once nothing is half done. -/
theorem reaches_leave (hsound : Sound cls name constant lock store)
    (howns : Owns lock store thread)
    (hsettled : Fresh cls name store ∨ ∃ value, Published cls name constant store value) :
    Sound cls name constant lock (store.leave thread (.other lock) 1) ∧
      Undisturbed cls name constant lock thread store (store.leave thread (.other lock) 1) ∧
      ¬ Owns lock (store.leave thread (.other lock) 1) thread := by
  have hmonitor : (store.leave thread (.other lock) 1).monitors (.other lock) = none :=
    Function.update_self _ _ _
  have hnobody : ∀ other, ¬ Owns lock (store.leave thread (.other lock) 1) other := by
    intro other howns'
    rw [Owns, hmonitor] at howns'
    cases howns'
  refine ⟨⟨hsound.lockObject, ?_, ?_, ?_, fun _ => hsettled, hsound.phase⟩,
    ⟨fun _ => id, ?_, fun other _ _ => hnobody other, fun _ _ hsome _ => hsome, fun _ _ => rfl⟩,
    hnobody thread⟩
  · intro other count hsome
    rw [hmonitor] at hsome
    cases hsome
  · exact fun other howns' => absurd howns' (hnobody other)
  · intro other _
    by_cases hsame : other = thread
    · have hbefore := hsound.owner other (hsame ▸ howns)
      simp [Store.leave, Deed.enteredBy, Deed.leftBy, hsame] at hbefore ⊢
      omega
    · have hbefore := hsound.others other fun howns' => hsame (howns.unique howns')
      simpa [Store.leave, Deed.enteredBy, Deed.leftBy, Ne.symm hsame] using hbefore
  · intro other hne howns'
    exact absurd (howns.unique howns') hne

end Store

/-! ## Where a thread can be -/

/-- The places in the accessor of a constant whose call has so many instructions, each with what a
thread there knows. -/
inductive At {V : Type} (lock : V) (callLength : Nat) : Status V → Knowledge V → Prop
  | look {locals} : At lock callLength (.running ⟨0, [], locals⟩) .outside
  | unset {locals} : At lock callLength (.running ⟨1, [.int 0], locals⟩) .outside
  | set {locals value} : At lock callLength (.running ⟨1, [.int 1], locals⟩) (.published value)
  | fetchLock {locals} : At lock callLength (.running ⟨2, [], locals⟩) .outside
  | copyLock {locals} : At lock callLength (.running ⟨3, [.other lock], locals⟩) .outside
  | keepLock {locals} :
      At lock callLength (.running ⟨4, [.other lock, .other lock], locals⟩) .outside
  | takeLock {locals} (hkept : locals 0 = some (.other lock)) :
      At lock callLength (.running ⟨5, [.other lock], locals⟩) .outside
  | lookAgainFresh {locals} (hkept : locals 0 = some (.other lock)) :
      At lock callLength (.running ⟨6, [], locals⟩) .fresh
  | lookAgainGuarded {locals value} (hkept : locals 0 = some (.other lock)) :
      At lock callLength (.running ⟨6, [], locals⟩) (.guarded value)
  | stillUnset {locals} (hkept : locals 0 = some (.other lock)) :
      At lock callLength (.running ⟨7, [.int 0], locals⟩) .fresh
  | alreadySet {locals value} (hkept : locals 0 = some (.other lock)) :
      At lock callLength (.running ⟨7, [.int 1], locals⟩) (.guarded value)
  | call {locals} (hkept : locals 0 = some (.other lock)) :
      At lock callLength (.running ⟨8, [], locals⟩) .fresh
  | putValue {locals value} (hkept : locals 0 = some (.other lock)) :
      At lock callLength (.running ⟨8 + callLength, [.other value], locals⟩) (.computed value)
  | one {locals value} (hkept : locals 0 = some (.other lock)) :
      At lock callLength (.running ⟨8 + callLength + 1, [], locals⟩) (.stored value)
  | putFlag {locals value} (hkept : locals 0 = some (.other lock)) :
      At lock callLength (.running ⟨8 + callLength + 2, [.int 1], locals⟩) (.stored value)
  | unlock {locals value} (hkept : locals 0 = some (.other lock)) :
      At lock callLength (.running ⟨8 + callLength + 3, [], locals⟩) (.guarded value)
  | exit {locals value} :
      At lock callLength (.running ⟨8 + callLength + 4, [.other lock], locals⟩) (.guarded value)
  | toEnd {locals value} :
      At lock callLength (.running ⟨8 + callLength + 5, [], locals⟩) (.published value)
  | keepCaught {locals exception} (hkept : locals 0 = some (.other lock)) :
      At lock callLength (.running ⟨8 + callLength + 6, [.other exception], locals⟩)
        (.caught exception)
  | unlockFailed {locals exception} (hkept : locals 0 = some (.other lock))
      (hcaught : locals 1 = some (.other exception)) :
      At lock callLength (.running ⟨8 + callLength + 7, [], locals⟩) (.caught exception)
  | exitFailed {locals exception} (hcaught : locals 1 = some (.other exception)) :
      At lock callLength (.running ⟨8 + callLength + 8, [.other lock], locals⟩)
        (.caught exception)
  | newError {locals exception} (hcaught : locals 1 = some (.other exception)) :
      At lock callLength (.running ⟨8 + callLength + 9, [], locals⟩) (.failed exception)
  | copyError {locals exception index} (hcaught : locals 1 = some (.other exception)) :
      At lock callLength (.running ⟨8 + callLength + 10, [.object index], locals⟩)
        (.made exception index)
  | fetchCaught {locals exception index} (hcaught : locals 1 = some (.other exception)) :
      At lock callLength (.running ⟨8 + callLength + 11, [.object index, .object index], locals⟩)
        (.made exception index)
  | construct {locals exception index} :
      At lock callLength
        (.running ⟨8 + callLength + 12, [.other exception, .object index, .object index], locals⟩)
        (.made exception index)
  | raise {locals exception index} :
      At lock callLength (.running ⟨8 + callLength + 13, [.object index], locals⟩)
        (.wrapped exception index)
  | fetchValue {locals value} :
      At lock callLength (.running ⟨8 + callLength + 14, [], locals⟩) (.published value)
  | giveBack {locals value} :
      At lock callLength (.running ⟨8 + callLength + 15, [.other value], locals⟩)
        (.published value)
  | returned {value} : At lock callLength (.returned (.other value)) (.published value)
  | threw {exception index} : At lock callLength (.threw (.object index)) (.wrapped exception index)

section Turns

variable {cls : ClassName} {name : String} {constant : Dynamic} {type : JavaType}
  {compute : List Instruction} {Thread V : Type} [DecidableEq Thread] [DecidableEq V] {lock : V}
  {thread : Thread} {store : Store Thread V}

/-- The program of the accessor with the given call. -/
abbrev listed (cls : ClassName) (name : String) (constant : Dynamic) (type : JavaType)
    (compute : List Instruction) : Program :=
  accessorProgram cls name constant (accessorListing cls name constant type compute) compute.length

/-- An instruction stands at an index outside the call. -/
def Stands (cls : ClassName) (name : String) (constant : Dynamic) (type : JavaType)
    (compute : List Instruction) (index : Nat) (instruction : Instruction) : Prop :=
  ¬ (listed cls name constant type compute).InCall index ∧
    ∃ label, (listed cls name constant type compute).code.instructions[index]? =
      some ⟨label, instruction⟩

/-- What stands in front of the call. -/
theorem stands_front (index : Nat) (hindex : index < 8) {label : Option Label}
    {instruction : Instruction}
    (hentry : (accessorFront cls name)[index]? = some ⟨label, instruction⟩) :
    Stands cls name constant type compute index instruction :=
  ⟨fun hinside => absurd hinside.1 (Nat.not_le.mpr hindex), label,
    (fetch_front hindex).trans hentry⟩

/-- What stands behind the call. -/
theorem stands_back (offset : Nat) {label : Option Label} {instruction : Instruction}
    (hentry : (accessorBack cls name constant type)[offset]? = some ⟨label, instruction⟩) :
    Stands cls name constant type compute (8 + compute.length + offset) instruction :=
  ⟨fun hinside => absurd hinside.2 (Nat.not_lt.mpr (Nat.le_add_right ..)), label,
    (fetch_back offset).trans hentry⟩

/-- What a thread can do next. -/
inductive Turn (cls : ClassName) (name : String) (constant : Dynamic) (type : JavaType)
    (compute : List Instruction) (lock : V) (thread : Thread) (store : Store Thread V) :
    Status V → Prop
  /-- It calls the bootstrap method. -/
  | calls {locals} (hkept : locals 0 = some (.other lock))
      (hfresh : Knows cls name constant lock store thread .fresh) :
      Turn cls name constant type compute lock thread store (.running ⟨8, [], locals⟩)
  /-- It is done. -/
  | done {status} (hdone : status.IsDone) (houtside : ¬ Owns lock store thread) :
      Turn cls name constant type compute lock thread store status
  /-- It goes on. -/
  | goes {activation : Activation V} {status' store' knowledge}
      (houtside : ¬ (listed cls name constant type compute).InCall activation.next)
      (hadvance : (listed cls name constant type compute).advance thread activation store =
        some (status', store'))
      (hat : At lock compute.length status' knowledge)
      (hreaches : Reaches cls name constant lock thread store store' knowledge) :
      Turn cls name constant type compute lock thread store (.running activation)
  /-- It waits for the lock. -/
  | waits {activation : Activation V} {other}
      (houtside : ¬ (listed cls name constant type compute).InCall activation.next)
      (hadvance : (listed cls name constant type compute).advance thread activation store = none)
      (hother : other ≠ thread) (howns : Owns lock store other) :
      Turn cls name constant type compute lock thread store (.running activation)

section Going

variable {index index' : Nat} {instruction : Instruction} {stack stack' : List (Value V)}
  {locals locals' : UInt16 → Option (Value V)} {store' : Store Thread V}
  {knowledge : Knowledge V}

/-- What an instruction comes to is what it performs. -/
theorem Stands.advance (h : Stands cls name constant type compute index instruction)
    {effect : Effect Thread V}
    (hperform : perform thread store stack locals instruction = some effect) :
    (listed cls name constant type compute).advance thread ⟨index, stack, locals⟩ store =
      (listed cls name constant type compute).proceed ⟨index, stack, locals⟩ store effect := by
  obtain ⟨_, label, hfetch⟩ := h
  simp only [Program.advance, hfetch, hperform, Option.bind_eq_bind, Option.bind_some]

/-- A thread goes on with the next instruction. -/
theorem Stands.go (h : Stands cls name constant type compute index instruction)
    (hat : At lock compute.length (.running ⟨index + 1, stack', locals'⟩) knowledge)
    (hreaches : Reaches cls name constant lock thread store store' knowledge)
    (hperform : perform thread store stack locals instruction = some (.go stack' locals' store')) :
    Turn cls name constant type compute lock thread store (.running ⟨index, stack, locals⟩) :=
  .goes h.1 (h.advance hperform) hat hreaches

/-- A thread goes on somewhere else. -/
theorem Stands.jump (h : Stands cls name constant type compute index instruction) {target : Label}
    (hat : At lock compute.length (.running ⟨index', stack', locals⟩) knowledge)
    (hreaches : Reaches cls name constant lock thread store store knowledge)
    (htarget : indexOf? (accessorListing cls name constant type compute) target = some index')
    (hperform : perform thread store stack locals instruction = some (.jump target stack')) :
    Turn cls name constant type compute lock thread store (.running ⟨index, stack, locals⟩) := by
  refine .goes h.1 ((h.advance hperform).trans ?_) hat hreaches
  show Option.map _ (indexOf? (accessorListing cls name constant type compute) target) = _
  rw [htarget]
  rfl

/-- A thread looks at a field. -/
theorem Stands.get {target : FieldRef} {value : Value V}
    (h : Stands cls name constant type compute index (.field .getStatic target))
    (hat : At lock compute.length (.running ⟨index + 1, value :: stack, locals⟩) knowledge)
    (hreaches : Reaches cls name constant lock thread store store knowledge)
    (hvalue : store.statics target = value) :
    Turn cls name constant type compute lock thread store (.running ⟨index, stack, locals⟩) :=
  h.go hat hreaches (by rw [perform_get, hvalue])

/-- A thread loads a reference from a local variable. -/
theorem Stands.load {slot : UInt16} {value : Value V}
    (h : Stands cls name constant type compute index (.load .reference slot))
    (hat : At lock compute.length (.running ⟨index + 1, value :: stack, locals⟩) knowledge)
    (hreaches : Reaches cls name constant lock thread store store knowledge)
    (hvalue : locals slot = some value) :
    Turn cls name constant type compute lock thread store (.running ⟨index, stack, locals⟩) :=
  h.go hat hreaches (by rw [perform_load, hvalue, Option.map_some])

end Going

/-- A thread that takes the lock, or waits for it. -/
theorem turn_takeLock {locals : UInt16 → Option (Value V)}
    (hkept : locals 0 = some (.other lock)) (hsound : Sound cls name constant lock store)
    (hknows : Knows cls name constant lock store thread .outside) :
    Turn cls name constant type compute lock thread store
      (.running ⟨5, [.other lock], locals⟩) := by
  have hstands : Stands cls name constant type compute 5 (.op .monitorenter) :=
    stands_front 5 (by decide) rfl
  cases hmonitor : store.monitors (.other lock) with
  | none =>
      have hperform := perform_enter_free thread store [] locals hmonitor
      obtain ⟨knowledge, hcase, hreaches⟩ := reaches_enter thread hsound hmonitor
      rcases hcase with rfl | ⟨value, rfl⟩
      · exact hstands.go (.lookAgainFresh hkept) hreaches hperform
      · exact hstands.go (.lookAgainGuarded hkept) hreaches hperform
  | some owner =>
      obtain ⟨other, count⟩ := owner
      obtain rfl := hsound.once other count hmonitor
      have hother : other ≠ thread := by
        rintro rfl
        exact hknows hmonitor
      have hperform := perform_enter_owned thread store [] locals hmonitor hother
      refine .waits hstands.1 ?_ hother hmonitor
      obtain ⟨_, label, hfetch⟩ := hstands
      simp only [Program.advance, hfetch, hperform, Option.bind_eq_bind, Option.bind_some,
        Option.bind_none]

/-- **What a thread at a place can do next**, and where that takes it. -/
theorem At.turn {status : Status V} {knowledge : Knowledge V}
    (h : At lock compute.length status knowledge) (hsound : Sound cls name constant lock store)
    (hknows : Knows cls name constant lock store thread knowledge) :
    Turn cls name constant type compute lock thread store status := by
  have hstill := reaches_same hsound hknows
  cases h with
  | look =>
      have hstands : Stands cls name constant type compute 0
          (.field .getStatic (flagField cls name)) := stands_front 0 (by decide) rfl
      rcases hsound.phase with ⟨hunset, _⟩ | ⟨value, hpublished⟩
      · exact hstands.get .unset hstill hunset
      · have hknows' : Knows cls name constant lock store thread (.published value) :=
          ⟨hknows, hpublished⟩
        exact hstands.get .set (reaches_same hsound hknows') hpublished.1
  | unset => exact (stands_front 1 (by decide) rfl).go .fetchLock hstill rfl
  | set => exact (stands_front 1 (by decide) rfl).jump .fetchValue hstill indexOf_finished rfl
  | fetchLock => exact (stands_front 2 (by decide) rfl).get .copyLock hstill hsound.lockObject
  | copyLock => exact (stands_front 3 (by decide) rfl).go .keepLock hstill rfl
  | keepLock =>
      exact (stands_front 4 (by decide) rfl).go (.takeLock (Function.update_self ..)) hstill rfl
  | takeLock hkept => exact turn_takeLock hkept hsound hknows
  | lookAgainFresh hkept =>
      exact (stands_front 6 (by decide) rfl).get (.stillUnset hkept) hstill hknows.2.1
  | lookAgainGuarded hkept =>
      exact (stands_front 6 (by decide) rfl).get (.alreadySet hkept) hstill hknows.2.1
  | stillUnset hkept => exact (stands_front 7 (by decide) rfl).go (.call hkept) hstill rfl
  | alreadySet hkept =>
      exact (stands_front 7 (by decide) rfl).jump (.unlock hkept) hstill indexOf_unlock rfl
  | call hkept => exact .calls hkept hknows
  | putValue hkept =>
      exact (stands_back 0 rfl).go (.one hkept) (reaches_putValue hsound hknows) rfl
  | one hkept => exact (stands_back 1 rfl).go (.putFlag hkept) hstill rfl
  | putFlag hkept =>
      exact (stands_back 2 rfl).go (.unlock hkept) (reaches_putFlag hsound hknows) rfl
  | unlock hkept => exact (stands_back 3 rfl).load .exit hstill hkept
  | exit =>
      obtain ⟨howns, hpublished⟩ := hknows
      obtain ⟨hsound', hundisturbed, hnot⟩ := reaches_leave hsound howns (.inr ⟨_, hpublished⟩)
      exact (stands_back 4 rfl).go .toEnd ⟨hsound', hundisturbed, hnot, hpublished⟩
        (perform_exit_owned _ _ _ _ howns)
  | toEnd => exact (stands_back 5 rfl).jump .fetchValue hstill indexOf_finished rfl
  | keepCaught hkept =>
      refine (stands_back 6 rfl).go (.unlockFailed ?_ (Function.update_self ..)) hstill rfl
      exact (Function.update_of_ne (by decide) _ _).trans hkept
  | unlockFailed hkept hcaught => exact (stands_back 7 rfl).load (.exitFailed hcaught) hstill hkept
  | exitFailed hcaught =>
      obtain ⟨howns, hfresh, hfailure⟩ := hknows
      obtain ⟨hsound', hundisturbed, hnot⟩ := reaches_leave hsound howns (.inl hfresh)
      exact (stands_back 8 rfl).go (.newError hcaught) ⟨hsound', hundisturbed, hnot, hfailure⟩
        (perform_exit_owned _ _ _ _ howns)
  | newError hcaught =>
      exact (stands_back 9 rfl).go (.copyError hcaught) (reaches_make hsound hknows) rfl
  | copyError hcaught => exact (stands_back 10 rfl).go (.fetchCaught hcaught) hstill rfl
  | fetchCaught hcaught => exact (stands_back 11 rfl).load .construct hstill hcaught
  | construct =>
      exact (stands_back 12 rfl).go .raise (reaches_construct hsound hknows) rfl
  | raise =>
      have hstands : Stands cls name constant type compute (8 + compute.length + 13)
          (.op .athrow) := stands_back 13 rfl
      refine .goes hstands.1 ((hstands.advance rfl).trans ?_) .threw hstill
      have hfree : 8 + compute.length + 5 ≤ 8 + compute.length + 13 := by omega
      exact congrArg (fun status => some (status, store)) (unwind_free hfree _ _)
  | fetchValue => exact (stands_back 14 rfl).get .giveBack hstill hknows.2.2.1
  | @giveBack locals value =>
      have hstands : Stands cls name constant type compute (8 + compute.length + 15)
          (Fragment.returnValue type) := stands_back 15 rfl
      have hperform : perform thread store [.other value] locals (Fragment.returnValue type) =
          some (.finish (.other value)) := by
        unfold Fragment.returnValue
        cases type.kind <;> rfl
      exact .goes hstands.1 (hstands.advance hperform) .returned hstill
  | returned => exact .done trivial hknows.1
  | threw => exact .done trivial hknows.1

/-- **A step of a thread** takes it from one place to another, and leaves the store as it should
be. -/
theorem At.move (hcompute : compute ≠ []) {status status' : Status V} {store' : Store Thread V}
    {knowledge : Knowledge V} (h : At lock compute.length status knowledge)
    (hsound : Sound cls name constant lock store)
    (hknows : Knows cls name constant lock store thread knowledge)
    (hmove : (listed cls name constant type compute).Move thread status store status' store') :
    ∃ knowledge', At lock compute.length status' knowledge' ∧
      Reaches cls name constant lock thread store store' knowledge' := by
  have hpositive : 0 < compute.length := List.length_pos_iff.mpr hcompute
  have hstart : (listed cls name constant type compute).InCall 8 := by
    refine ⟨Nat.le_refl 8, ?_⟩
    show 8 < 8 + compute.length
    omega
  have hturn : Turn cls name constant type compute lock thread store status :=
    h.turn hsound hknows
  cases hturn with
  | calls hkept hfresh =>
      cases hmove with
      | instruction houtside _ => exact absurd hstart houtside
      | computed value _ hfields =>
          exact ⟨.computed value, .putValue hkept, reaches_computed hsound hfresh value hfields⟩
      | @failed _ _ exception statics index _ hfields hindex =>
          refine ⟨.caught exception, ?_, reaches_failed hsound hfresh exception hfields⟩
          have hfrom : 8 ≤ index := hindex.1
          have hto : index < 8 + compute.length := hindex.2
          show At lock compute.length (unwind (accessorListing cls name constant type compute) index
            (.other exception) _) (.caught exception)
          rw [unwind_guarded (by omega) (by omega)]
          exact .keepCaught hkept
      | again hdone => cases hdone
  | done hdone houtside =>
      cases hmove with
      | again _ => exact ⟨.outside, .look, reaches_same hsound houtside⟩
      | instruction _ _ => cases hdone
      | computed _ _ _ => cases hdone
      | failed _ _ _ _ => cases hdone
  | goes houtside hadvance hat hreaches =>
      cases hmove with
      | instruction _ hadvance' =>
          rw [hadvance] at hadvance'
          cases hadvance'
          exact ⟨_, hat, hreaches⟩
      | computed _ hnext _ => exact absurd (hnext ▸ hstart) houtside
      | failed _ hnext _ _ => exact absurd (hnext ▸ hstart) houtside
      | again hdone => cases hdone
  | waits houtside hadvance _ _ =>
      cases hmove with
      | instruction _ hadvance' =>
          rw [hadvance] at hadvance'
          cases hadvance'
      | computed _ hnext _ => exact absurd (hnext ▸ hstart) houtside
      | failed _ hnext _ _ => exact absurd (hnext ▸ hstart) houtside
      | again hdone => cases hdone

/-- What is so of all threads together: the store is as it should be, and every thread is at a place
and knows what a thread there knows. -/
structure Inv (cls : ClassName) (name : String) (constant : Dynamic) (lock : V) (callLength : Nat)
    (state : State Thread V) : Prop where
  sound : Sound cls name constant lock state.store
  places : ∀ thread, ∃ knowledge, At lock callLength (state.threads thread) knowledge ∧
    Knows cls name constant lock state.store thread knowledge

/-- **Every step keeps the invariant.** -/
theorem inv_step (hcompute : compute ≠ []) {state state' : State Thread V}
    (h : Inv cls name constant lock compute.length state)
    (hstep : (listed cls name constant type compute).Step state state') :
    Inv cls name constant lock compute.length state' := by
  obtain ⟨thread, hmove⟩ := hstep
  obtain ⟨knowledge, hat, hknows⟩ := h.places thread
  obtain ⟨knowledge', hat', hsound', hundisturbed, hknows'⟩ :=
    hat.move hcompute h.sound hknows hmove
  refine ⟨hsound', fun other => ?_⟩
  by_cases hsame : other = thread
  · subst hsame
    exact ⟨knowledge', by simpa using hat', hknows'⟩
  · obtain ⟨before, hatOther, hknowsOther⟩ := h.places other
    exact ⟨before, by simpa [hsame] using hatOther,
      hknowsOther.of_undisturbed hundisturbed hsame⟩

omit [DecidableEq V] in
/-- The invariant holds before anything happened. -/
theorem inv_of_untouched {state : State Thread V} (h : Untouched cls name lock state) :
    Inv cls name constant lock compute.length state := by
  have hnobody : ∀ thread, ¬ Owns lock state.store thread := by
    intro thread howns
    rw [Owns, h.monitors] at howns
    cases howns
  have hresults : state.store.results = [] := by
    rw [Store.results, h.history]
    rfl
  refine ⟨⟨h.lockObject, ?_, ?_, ?_, fun _ => .inl ⟨h.flag, hresults⟩,
    .inl ⟨h.flag, by simp [hresults]⟩⟩, fun thread => ⟨.outside, ?_, hnobody thread⟩⟩
  · intro thread count hsome
    rw [h.monitors] at hsome
    cases hsome
  · exact fun thread howns => absurd howns (hnobody thread)
  · intro thread _
    rw [h.history]
    rfl
  · rw [h.threads]
    exact .look

/-- **The invariant holds of everything that can be reached.** -/
theorem inv_of_reachable (hcompute : compute ≠ []) {state : State Thread V}
    (h : (listed cls name constant type compute).Reachable (Untouched cls name lock) state) :
    Inv cls name constant lock compute.length state :=
  h.invariant (fun _ => inv_of_untouched) fun _ _ => inv_step hcompute

omit [DecidableEq V] in
/-- The invariant is all that is promised. -/
theorem Inv.computedOnce {callLength : Nat} {state : State Thread V}
    (h : Inv cls name constant lock callLength state) :
    ComputedOnce cls name constant lock state := by
  have hbetween : ∀ thread, state.store.IsBetween thread → Owns lock state.store thread := by
    intro thread hbetween
    by_contra hnot
    have hequal := h.sound.others thread hnot
    unfold Store.IsBetween at hbetween
    omega
  refine ⟨?_, ?_, ?_, ?_, ?_, ?_⟩
  · intro thread other hthread hother
    exact (hbetween other hother).unique (hbetween thread hthread)
  · rcases h.sound.phase with ⟨_, hresults⟩ | ⟨value, _, _, hresults⟩
    · exact hresults
    · rw [hresults]
      exact Nat.le_refl 1
  · intro hset
    rcases h.sound.phase with ⟨hunset, _⟩ | ⟨value, _, hvalue, hresults⟩
    · exact absurd hunset hset
    · exact ⟨value, hresults, hvalue⟩
  · intro thread result hreturned
    obtain ⟨knowledge, hat, hknows⟩ := h.places thread
    rw [hreturned] at hat
    cases hat
    exact ⟨_, hknows.2.2.2, rfl⟩
  · rintro thread hdone ⟨count, howns⟩
    obtain ⟨knowledge, hat, hknows⟩ := h.places thread
    obtain rfl := h.sound.once thread count howns
    cases hstatus : state.threads thread with
    | running activation =>
        rw [hstatus] at hdone
        cases hdone
    | returned value =>
        rw [hstatus] at hat
        cases hat
        exact hknows.1 howns
    | threw exception =>
        rw [hstatus] at hat
        cases hat
        exact hknows.1 howns
  · intro thread thrown hthrew
    obtain ⟨knowledge, hat, hknows⟩ := h.places thread
    rw [hthrew] at hat
    cases hat
    exact ⟨_, _, rfl, hknows.2.2, hknows.2.1⟩

/-- **No thread is ever stuck**: it can take a step, or it waits for another one that owns the
lock. -/
theorem Inv.can_move {state : State Thread V}
    (h : Inv cls name constant lock compute.length state) (thread : Thread) :
    (∃ status store, (listed cls name constant type compute).Move thread (state.threads thread)
      state.store status store) ∨
    ∃ other, other ≠ thread ∧ state.store.OwnsMonitor other (.other lock) := by
  obtain ⟨knowledge, hat, hknows⟩ := h.places thread
  have hturn : Turn cls name constant type compute lock thread state.store
      (state.threads thread) := hat.turn h.sound hknows
  generalize state.threads thread = status at hturn
  cases hturn with
  | calls hkept _ => exact .inl ⟨_, _, .computed lock rfl fun _ _ => rfl⟩
  | done hdone _ => exact .inl ⟨_, _, .again hdone⟩
  | goes houtside hadvance _ _ => exact .inl ⟨_, _, .instruction houtside hadvance⟩
  | waits _ _ hother howns => exact .inr ⟨_, hother, 1, howns⟩

end Turns

end Accessor

/-- A bootstrap method is called by at least one instruction. -/
theorem callBootstrap_ne_nil {cls : ClassFile} {bootstrap : Handle} {leading : Leading}
    {arguments : List Loadable} {result : JavaType} {found found' : Found}
    {compute : List Instruction}
    (h : callBootstrap cls bootstrap leading arguments result found = .ok (compute, found')) :
    compute ≠ [] := by
  unfold callBootstrap at h
  simp only [work_bind_eq_ok, work_lift_eq_ok] at h
  obtain ⟨_, _, _, _, _, _, _, _, _, _, _, _, returned, _, _, h⟩ := h
  cases returned with
  | none => simp at h
  | some returned =>
      simp only [work_bind_eq_ok, work_pure_eq_ok] at h
      obtain ⟨_, _, _, rfl, _⟩ := h
      simp

/-- **A constant is computed at most once.**  If the call of its bootstrap method can be written,
there is an accessor with that call in it; and whatever steps any number of threads take in it,
starting with an unset flag and a free lock, at most one of them is between taking the lock and
giving it back, the call leaves at most one value, the flag is set only once that value is stored,
all who return get that value, and those who return or throw have given the lock back, having thrown
nothing but an error around what they caught. -/
theorem accessor_computes_once (cls : ClassFile) (name : String) (constant : Dynamic)
    (type : JavaType) (compute : List Instruction) (found found' : Found)
    (htype : JavaType.parse constant.descriptor = .ok type)
    (hcompute : callBootstrap cls constant.bootstrap (.ofConstant constant) constant.arguments type
      found = .ok (compute, found')) :
    ∃ code, accessorCode cls name constant found = .ok (code, found') ∧
      (code.instructions.drop 8).take compute.length = compute.map Instruction.plain ∧
      ∀ (Thread V : Type) [DecidableEq Thread] [DecidableEq V] (lock : V) (state : State Thread V),
        (accessorProgram cls.name name constant code compute.length).Reachable
          (Untouched cls.name name lock) state →
        ComputedOnce cls.name name constant lock state := by
  have hcode : accessorCode cls name constant found =
      .ok (accessorListing cls.name name constant type compute, found') := by
    unfold accessorCode
    simp only [work_bind_eq_ok, work_lift_eq_ok, work_pure_eq_ok]
    exact ⟨type, found, ⟨htype, rfl⟩, compute, found', hcompute, ofPieces_accessor .., rfl⟩
  refine ⟨_, hcode, call_of_listing, fun Thread V _ _ lock state hreachable => ?_⟩
  exact (Accessor.inv_of_reachable (callBootstrap_ne_nil hcompute) hreachable).computedOnce

/-- A class that holds a constant. -/
def holder : ClassFile where
  version := ⟨55, 0⟩
  access := {}
  name := "a/Holder"
  superClass := some ClassName.javaObject
  interfaces := []

/-- A constant number, made by a method of another class. -/
def answer : Dynamic where
  name := "answer"
  descriptor := "Ljava/lang/Integer;"
  bootstrap := .method (.static false) ⟨"a/Bootstraps", "make",
    "(Ljava/lang/invoke/MethodHandles$Lookup;Ljava/lang/String;Ljava/lang/Class;)" ++
      "Ljava/lang/Object;"⟩
  arguments := []

/-- The call that makes the number. -/
def answerCall : List Instruction :=
  [.invokestatic ⟨"java/lang/invoke/MethodHandles", "lookup",
      "()Ljava/lang/invoke/MethodHandles$Lookup;"⟩ false,
    Fragment.text "answer", .ldc (.cls "java/lang/Integer"), answer.bootstrap.call,
    .checkcast "java/lang/Integer"]

/-- The number is computed at most once, whatever two threads do. -/
theorem accessor_computes_once_answer :
    ∃ code found, accessorCode holder "n" answer { names := ⟨∅⟩ } = .ok (code, found) ∧
      ∀ state : State Bool Nat,
        (accessorProgram "a/Holder" "n" answer code 5).Reachable (Untouched "a/Holder" "n" 7)
          state →
        ComputedOnce "a/Holder" "n" answer 7 state := by
  have htype : JavaType.parse answer.descriptor = .ok (.object "java/lang/Integer") := by
    rfl
  have houtcome : (callBootstrap holder answer.bootstrap (.ofConstant answer) answer.arguments
      (.object "java/lang/Integer") { names := ⟨∅⟩ }).map Prod.fst = .ok answerCall := by
    decide +kernel
  obtain ⟨found, hcall⟩ : ∃ found, callBootstrap holder answer.bootstrap (.ofConstant answer)
      answer.arguments (.object "java/lang/Integer") { names := ⟨∅⟩ } =
        .ok (answerCall, found) := by
    cases hcall : callBootstrap holder answer.bootstrap (.ofConstant answer) answer.arguments
        (.object "java/lang/Integer") { names := ⟨∅⟩ } with
    | error fault =>
        rw [hcall] at houtcome
        cases houtcome
    | ok outcome =>
        rw [hcall] at houtcome
        exact ⟨outcome.2, congrArg Except.ok (Prod.ext (Except.ok.inj houtcome) rfl)⟩
  obtain ⟨code, hcode, _, honce⟩ :=
    accessor_computes_once holder "n" answer _ answerCall _ found htype hcall
  exact ⟨code, found, hcode, honce Bool Nat 7⟩

end Constants

end Downlevel
