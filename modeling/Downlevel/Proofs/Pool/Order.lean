import Downlevel.Proofs.Pool.Interning

/-!
# The order of a pool

The index of an entry is the place where it stands, and every entry stands behind those that it refers
to.  Dynamic entries stand behind all that their bootstrap method refers to, too.  None of this depends
on how names are spelled.

* `Pool.Builder.Ordered` — the invariant of a pool that is being filled;
* `Pool.Builder.Ordered.put`, `Pool.Builder.Ordered.bootstrap` — what is put keeps it, if what that
  refers to was put before;
* `PoolM.Extends` — work that keeps it, and the place that it gives.
-/

namespace Downlevel

namespace Pool

/-- The places that an entry refers to. -/
def Entry.references : Entry → List UInt16
  | .utf8 _ | .int _ | .float _ | .long _ | .double _ => []
  | .cls place | .string place | .methodType place | .module place | .package place => [place]
  | .handle _ target => [target]
  | .nameAndType name descriptor => [name, descriptor]
  | .field owner member | .method owner member | .interfaceMethod owner member => [owner, member]
  | .dynamic _ member | .invokeDynamic _ member => [member]

/-- The bootstrap method that an entry refers to. -/
def Entry.bootstrap? : Entry → Option UInt16
  | .dynamic index _ | .invokeDynamic index _ => some index
  | _ => none

/-- The places that a bootstrap method refers to. -/
def PlacedBootstrap.references (placed : PlacedBootstrap) : List UInt16 :=
  placed.handle :: placed.arguments

namespace Builder

/-- The pool has an entry at a place. -/
def Holds (pool : Builder) (place : UInt16) : Prop :=
  ∃ item : Entry, pool.index[item]? = some place

/-- A pool that grows has entries where it had some. -/
theorem Holds.mono {pool pool' : Builder} {place : UInt16} (h : pool.Holds place)
    (hgrows : pool.Grows pool') : pool'.Holds place := by
  obtain ⟨item, hitem⟩ := h
  exact ⟨item, hgrows.entries item place hitem⟩

/-- All that an entry refers to is among some places, also through its bootstrap method. -/
structure Refers (pool : Builder) (item : Entry) (among : UInt16 → Prop) : Prop where
  own : ∀ other ∈ item.references, among other
  bootstrap : ∀ index, item.bootstrap? = some index →
    ∃ placed, pool.bootstraps[index.toNat]? = some placed ∧ ∀ other ∈ placed.references, among other

/-- What an entry refers to stays, and is among more places, when bootstrap methods are added. -/
theorem Refers.mono {pool pool' : Builder} {item : Entry} {among among' : UInt16 → Prop}
    (h : pool.Refers item among)
    (hbootstraps : ∀ (n : Nat) (placed : PlacedBootstrap), pool.bootstraps[n]? = some placed →
      pool'.bootstraps[n]? = some placed)
    (hamong : ∀ other, among other → among' other) : pool'.Refers item among' where
  own other hmem := hamong other (h.own other hmem)
  bootstrap index hindex := by
    obtain ⟨placed, hplaced, hall⟩ := h.bootstrap index hindex
    exact ⟨placed, hbootstraps _ _ hplaced, fun other hmem => hamong other (hall other hmem)⟩

/-- **The invariant of a pool that is being filled.**  Every entry has its place as index, and stands
behind all that it refers to. -/
structure Ordered (pool : Builder) : Prop where
  count : pool.count = pool.slots.length
  small : pool.count < 65536
  index : ∀ (item : Entry) (place : UInt16),
    pool.index[item]? = some place ↔ pool.slots[place.toNat]? = some (some item)
  bootstrapIndex : ∀ (placed : PlacedBootstrap) (n : Nat),
    pool.bootstrapIndex[placed]? = some n ↔ pool.bootstraps[n]? = some placed
  few : pool.bootstraps.size ≤ 65536
  refers : ∀ (item : Entry) (place : UInt16), pool.index[item]? = some place →
    pool.Refers item fun other => other < place ∧ pool.Holds other

/-- An empty pool is in order. -/
theorem ordered_empty : Ordered {} where
  count := rfl
  small := by decide
  index item place := by
    have hslots : ({} : Builder).slots = [none] := rfl
    rw [hslots, List.getElem?_singleton]
    simp
  bootstrapIndex placed n := by simp
  few := by decide
  refers item place h := by simp at h

variable {pool pool' : Builder} {item : Entry} {place : UInt16}

/-- An entry is found at its place only. -/
theorem Ordered.eq_of_index (h : pool.Ordered) {other : Entry} (hitem : pool.index[item]? = some place)
    (hother : pool.index[other]? = some place) : item = other := by
  have hslot := (h.index item place).mp hitem
  rw [(h.index other place).mp hother] at hslot
  exact (Option.some.inj (Option.some.inj hslot)).symm

/-- Places of entries are below the next free one. -/
theorem Ordered.lt_count (h : pool.Ordered) (hplace : pool.Holds place) :
    place.toNat < pool.count := by
  obtain ⟨item, hitem⟩ := hplace
  rw [h.count]
  exact (List.getElem?_eq_some_iff.mp ((h.index item place).mp hitem)).1

/-- The place of an entry is not the first one, where nothing stands. -/
theorem Ordered.ne_zero (h : pool.Ordered) (hplace : pool.Holds place) : place ≠ 0 := by
  obtain ⟨item, hitem⟩ := hplace
  rintro rfl
  cases (h.index item 0).mp hitem

/-- An entry behind the others takes the places from the next free one on. -/
theorem slots_push (pool : Builder) (item : Entry) (count : Nat)
    (index : Std.HashMap Entry UInt16) :
    slots { pool with count, entries := pool.entries.push item, index } =
      pool.slots ++ item.slots := by
  simp [slots]

/-- An entry stands at the first place that it takes, and nothing at the other. -/
theorem getElem?_slots {n : Nat} {other : Entry} :
    item.slots[n]? = some (some other) ↔ n = 0 ∧ item = other := by
  unfold Entry.slots
  split <;> rcases n with _ | _ | n <;> simp

/-- With an entry behind the others, indices still tell exactly where entries stand. -/
theorem Ordered.index_insert (h : pool.Ordered) (hnew : pool.index[item]? = none) (other : Entry)
    (place : UInt16) :
    (pool.index.insert item pool.count.toUInt16)[other]? = some place ↔
      (pool.slots ++ item.slots)[place.toNat]? = some (some other) := by
  have hcount : pool.count.toUInt16.toNat = pool.count := UInt16.toNat_ofNat_of_lt' h.small
  rw [Std.HashMap.getElem?_insert]
  by_cases hlt : place.toNat < pool.slots.length
  · rw [List.getElem?_append_left hlt, ← h.index other place]
    split
    next heq =>
      obtain rfl := eq_of_beq heq
      rw [hnew]
      refine iff_of_false (fun hplace => ?_) (by simp)
      rw [← Option.some.inj hplace, hcount, h.count] at hlt
      exact Nat.lt_irrefl _ hlt
    next => rfl
  · rw [List.getElem?_append_right (Nat.le_of_not_lt hlt), getElem?_slots, ← h.count]
    split
    next heq =>
      have hsame : pool.count.toUInt16 = place ↔ place.toNat - pool.count = 0 := by
        rw [← UInt16.toNat_inj, hcount]
        rw [← h.count] at hlt
        omega
      rw [Option.some_inj, hsame]
      exact (and_iff_left (eq_of_beq heq)).symm
    next hne =>
      refine iff_of_false (fun hplace => ?_) fun hplace => ?_
      · exact hlt (List.getElem?_eq_some_iff.mp ((h.index other place).mp hplace)).1
      · exact hne (beq_iff_eq.mpr hplace.2)

/-- **An entry that is put keeps a pool in order**, if what it refers to was put before. -/
theorem Ordered.put (h : pool.Ordered) (hrun : PoolM.put item pool = .ok (place, pool'))
    (hrefers : pool.Refers item pool.Holds) : pool'.Ordered := by
  have hgrows := PoolM.Interns.grows hrun
  unfold PoolM.put at hrun
  cases hknown : pool.index[item]? with
  | some known =>
      simp only [hknown] at hrun
      cases hrun
      exact h
  | none =>
      simp only [hknown] at hrun
      split at hrun
      next hroom =>
        cases hrun
        have hcount : pool.count.toUInt16.toNat = pool.count := UInt16.toNat_ofNat_of_lt' h.small
        refine ⟨?_, hroom, fun other place => ?_, h.bootstrapIndex, h.few,
          fun other place hother => ?_⟩
        · rw [slots_push, List.length_append, ← h.count, Entry.length_slots]
        · rw [slots_push]
          exact h.index_insert hknown other place
        · rw [Std.HashMap.getElem?_insert] at hother
          split at hother
          next heq =>
            obtain rfl := eq_of_beq heq
            cases hother
            refine hrefers.mono (fun _ _ hplaced => hplaced) fun below hbelow =>
              ⟨?_, hbelow.mono hgrows⟩
            exact UInt16.lt_iff_toNat_lt.mpr (Nat.lt_of_lt_of_eq (h.lt_count hbelow) hcount.symm)
          next =>
            exact (h.refers other place hother).mono (fun _ _ hplaced => hplaced) fun below hbelow =>
              ⟨hbelow.1, hbelow.2.mono hgrows⟩
      next => cases hrun

/-- A new entry gets the next free index. -/
theorem Ordered.index_new (h : pool.Ordered) (hnew : some item ∉ pool.slots)
    (hrun : PoolM.put item pool = .ok (place, pool')) : place.toNat = pool.count := by
  unfold PoolM.put at hrun
  split at hrun
  next known hknown => exact absurd (List.mem_of_getElem? ((h.index item known).mp hknown)) hnew
  next =>
    split at hrun
    next =>
      cases hrun
      exact UInt16.toNat_ofNat_of_lt' h.small
    next => cases hrun

/-- A bootstrap method that is put keeps a pool in order, and stands at its index. -/
theorem Ordered.bootstrap (h : pool.Ordered) {placed : PlacedBootstrap} {index : UInt16}
    (hrun : PoolM.bootstrap placed pool = .ok (index, pool')) :
    pool'.Ordered ∧ pool'.bootstraps[index.toNat]? = some placed := by
  have hgrows := PoolM.Interns.grows hrun
  suffices hordered : pool'.Ordered by
    obtain ⟨n, hn, rfl⟩ := PoolM.index_bootstrap hrun
    have hplaced := (hordered.bootstrapIndex placed n).mp hn
    have hlt := (Array.getElem?_eq_some_iff.mp hplaced).1
    refine ⟨hordered, ?_⟩
    rw [UInt16.toNat_ofNat_of_lt' (Nat.lt_of_lt_of_le hlt hordered.few), hplaced]
  unfold PoolM.bootstrap at hrun
  cases hknown : pool.bootstrapIndex[placed]? with
  | some n =>
      simp only [hknown] at hrun
      cases hrun
      exact h
  | none =>
      simp only [hknown] at hrun
      split at hrun
      next hroom =>
        cases hrun
        have hbefore (n : Nat) (other : PlacedBootstrap) (hother : pool.bootstraps[n]? = some other) :
            (pool.bootstraps.push placed)[n]? = some other := by
          have hlt := (Array.getElem?_eq_some_iff.mp hother).1
          rw [Array.getElem?_push, if_neg (Nat.ne_of_lt hlt), hother]
        refine ⟨h.count, h.small, h.index, fun other n => ?_, ?_, fun item place hitem => ?_⟩
        · rw [Std.HashMap.getElem?_insert, Array.getElem?_push]
          have hold := h.bootstrapIndex other n
          split
          next heq =>
            obtain rfl := eq_of_beq heq
            rw [hknown] at hold
            split
            next hn => simp [hn]
            next hn => exact (iff_of_false (fun hsize => hn (Option.some.inj hsize).symm) (by simp [← hold]))
          next hne =>
            split
            next hn =>
              rw [hold, hn, Array.getElem?_eq_none (Nat.le_refl _)]
              exact iff_of_false (by simp) fun hsame => hne (beq_iff_eq.mpr (Option.some.inj hsame))
            next => exact hold
        · rw [Array.size_push]
          exact hroom
        · exact (h.refers item place hitem).mono hbefore fun below hbelow =>
            ⟨hbelow.1, hbelow.2.mono hgrows⟩
      next => cases hrun

end Builder

end Pool

namespace PoolM

open Pool Builder

/-- Work that keeps a pool in order, and gives the place of an entry. -/
structure Extends (work : PoolM UInt16) : Prop where
  run : ∀ {pool place pool'}, work pool = .ok (place, pool') → pool.Ordered →
    pool'.Ordered ∧ pool'.Holds place

section Works

variable {pool pool' : Builder} {place : UInt16}

/-- An entry that is put has a place. -/
theorem holds_put {item : Entry} (h : put item pool = .ok (place, pool')) : pool'.Holds place :=
  ⟨item, index_put h⟩

/-- A text refers to nothing. -/
theorem extends_put {item : Entry} (hown : item.references = []) (hnone : item.bootstrap? = none) :
    Extends (put item) := by
  constructor
  intro pool place pool' hrun hpool
  refine ⟨hpool.put hrun ⟨?_, ?_⟩, holds_put hrun⟩
  · simp [hown]
  · simp [hnone]

/-- A text has a place. -/
theorem extends_javaUtf8 (value : JavaString) : Extends (javaUtf8 value) :=
  extends_put rfl rfl

/-- Work that puts one entry with a place that other work gives. -/
theorem Extends.bind_put {work : PoolM UInt16} (h : Extends work) {item : UInt16 → Entry}
    (hown : ∀ place, (item place).references = [place])
    (hnone : ∀ place, (item place).bootstrap? = none) :
    Extends (work >>= fun place => put (item place)) := by
  constructor
  intro pool place pool' hrun hpool
  obtain ⟨target, between, hfirst, hrun⟩ := work_bind_eq_ok.mp hrun
  obtain ⟨hbetween, htarget⟩ := h.run hfirst hpool
  refine ⟨hbetween.put hrun ⟨?_, ?_⟩, holds_put hrun⟩
  · simpa [hown] using htarget
  · simp [hnone]

/-- Work that puts one entry with two places that other work gives. -/
theorem Extends.bind₂_put {first second : PoolM UInt16} (hfirst : Extends first)
    (hsecond : Extends second) [Interns second] {item : UInt16 → UInt16 → Entry}
    (hown : ∀ a b, (item a b).references = [a, b])
    (hnone : ∀ a b, (item a b).bootstrap? = none) :
    Extends (first >>= fun a => second >>= fun b => put (item a b)) := by
  constructor
  intro pool place pool' hrun hpool
  obtain ⟨a, between, hrun₁, hrun⟩ := work_bind_eq_ok.mp hrun
  obtain ⟨b, behind, hrun₂, hrun⟩ := work_bind_eq_ok.mp hrun
  obtain ⟨hbetween, ha⟩ := hfirst.run hrun₁ hpool
  obtain ⟨hbehind, hb⟩ := hsecond.run hrun₂ hbetween
  refine ⟨hbehind.put hrun ⟨?_, ?_⟩, holds_put hrun⟩
  · simpa [hown] using ⟨ha.mono (Interns.grows hrun₂), hb⟩
  · simp [hnone]

/-- A class has a place. -/
theorem extends_cls (name : ClassName) : Extends (cls name) :=
  (extends_javaUtf8 _).bind_put (fun _ => rfl) fun _ => rfl

/-- A package has a place. -/
theorem extends_package (name : PackageName) : Extends (package name) :=
  (extends_javaUtf8 _).bind_put (fun _ => rfl) fun _ => rfl

/-- A module has a place. -/
theorem extends_module (name : ModuleName) : Extends (module name) :=
  (extends_javaUtf8 _).bind_put (fun _ => rfl) fun _ => rfl

/-- A string has a place. -/
theorem extends_string (value : JavaString) : Extends (string value) :=
  (extends_javaUtf8 _).bind_put (fun _ => rfl) fun _ => rfl

/-- A name and a descriptor have a place. -/
theorem extends_nameAndType (name descriptor : String) : Extends (nameAndType name descriptor) :=
  (extends_javaUtf8 _).bind₂_put (extends_javaUtf8 _) (fun _ _ => rfl) fun _ _ => rfl

/-- A field has a place. -/
theorem extends_fieldRef (field : FieldRef) : Extends (fieldRef field) :=
  (extends_cls _).bind₂_put (extends_nameAndType _ _) (fun _ _ => rfl) fun _ _ => rfl

/-- A method has a place. -/
theorem extends_methodRef (method : MethodRef) (onInterface : Bool) :
    Extends (methodRef method onInterface) :=
  (extends_cls _).bind₂_put (extends_nameAndType _ _) (by cases onInterface <;> exact fun _ _ => rfl)
    (by cases onInterface <;> exact fun _ _ => rfl)

/-- A handle has a place. -/
theorem extends_handle (value : Handle) : Extends (handle value) := by
  cases value with
  | field use field => exact (extends_fieldRef field).bind_put (fun _ => rfl) fun _ => rfl
  | method use method => exact (extends_methodRef method _).bind_put (fun _ => rfl) fun _ => rfl

/-- What refers to a bootstrap method has a place behind all that this refers to. -/
theorem extends_bootstrap {name descriptor : String} {method : Handle} {arguments : List Loadable}
    (harguments : ∀ {pool indices pool'}, loadables arguments pool = .ok (indices, pool') →
      pool.Ordered → pool'.Ordered ∧ ∀ index ∈ indices, pool'.Holds index)
    {item : UInt16 → UInt16 → Entry} (hown : ∀ index member, (item index member).references = [member])
    (hsome : ∀ index member, (item index member).bootstrap? = some index) :
    Extends (do
      let member ← nameAndType name descriptor
      let method ← handle method
      let arguments ← loadables arguments
      let index ← bootstrap ⟨method, arguments⟩
      put (item index member)) := by
  constructor
  intro pool place pool' hrun hpool
  obtain ⟨member, pool₁, hmember, hrun⟩ := work_bind_eq_ok.mp hrun
  obtain ⟨target, pool₂, hhandle, hrun⟩ := work_bind_eq_ok.mp hrun
  obtain ⟨indices, pool₃, hindices, hrun⟩ := work_bind_eq_ok.mp hrun
  obtain ⟨index, pool₄, hbootstrap, hrun⟩ := work_bind_eq_ok.mp hrun
  obtain ⟨hpool₁, hmember'⟩ := (extends_nameAndType _ _).run hmember hpool
  obtain ⟨hpool₂, htarget⟩ := (extends_handle _).run hhandle hpool₁
  obtain ⟨hpool₃, hall⟩ := harguments hindices hpool₂
  obtain ⟨hpool₄, hplaced⟩ := hpool₃.bootstrap hbootstrap
  have hgrows₄ : pool₃.Grows pool₄ := Interns.grows hbootstrap
  have hgrows₃ : pool₂.Grows pool₄ := .trans (Interns.grows hindices) hgrows₄
  have hgrows₂ : pool₁.Grows pool₄ := .trans (Interns.grows hhandle) hgrows₃
  refine ⟨hpool₄.put hrun ⟨?_, ?_⟩, holds_put hrun⟩
  · simpa [hown] using hmember'.mono hgrows₂
  · intro found hfound
    cases (hsome index member).symm.trans hfound
    refine ⟨_, hplaced, List.forall_mem_cons.mpr ⟨htarget.mono hgrows₃, fun other hmem => ?_⟩⟩
    exact (hall other hmem).mono hgrows₄

mutual

/-- A value that is loaded has a place. -/
theorem extends_loadable : ∀ value : Loadable, Extends (loadable value)
  | .int _ | .float _ | .long _ | .double _ => by
      unfold loadable
      exact extends_put rfl rfl
  | .cls name => by
      unfold loadable
      exact extends_cls name
  | .string value => by
      unfold loadable
      exact extends_string value
  | .handle value => by
      unfold loadable
      exact extends_handle value
  | .methodType descriptor => by
      unfold loadable
      exact (extends_javaUtf8 _).bind_put (fun _ => rfl) fun _ => rfl
  | .dynamic _ _ _ arguments => by
      unfold loadable
      exact extends_bootstrap (extends_loadables arguments) (fun _ _ => rfl) fun _ _ => rfl

/-- Values that are loaded have places. -/
theorem extends_loadables : ∀ (values : List Loadable) {pool indices pool'},
    loadables values pool = .ok (indices, pool') → pool.Ordered →
      pool'.Ordered ∧ ∀ index ∈ indices, pool'.Holds index
  | [], _, _, _, hrun, hpool => by
      unfold loadables at hrun
      obtain ⟨rfl, rfl⟩ := work_pure_eq_ok.mp hrun
      exact ⟨hpool, by simp⟩
  | value :: rest, _, _, _, hrun, hpool => by
      unfold loadables at hrun
      obtain ⟨first, between, hfirst, hrun⟩ := work_bind_eq_ok.mp hrun
      obtain ⟨others, _, hothers, hrun⟩ := work_bind_eq_ok.mp hrun
      obtain ⟨rfl, rfl⟩ := work_pure_eq_ok.mp hrun
      obtain ⟨hbetween, hholds⟩ := (extends_loadable value).run hfirst hpool
      obtain ⟨hpool', hall⟩ := extends_loadables rest hothers hbetween
      exact ⟨hpool', List.forall_mem_cons.mpr ⟨hholds.mono (Interns.grows hothers), hall⟩⟩

end

/-- A call site has a place. -/
theorem extends_callSite (site : CallSite) : Extends (callSite site) :=
  extends_bootstrap (extends_loadables site.arguments) (fun _ _ => rfl) fun _ _ => rfl

end Works

end PoolM

end Downlevel
