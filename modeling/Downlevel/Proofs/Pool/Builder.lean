import Mathlib.Data.List.Induction
import Downlevel.Pool.Builder
import Downlevel.Pool.Table
import Downlevel.Proofs.Outcome

/-!
# What a growing pool promises

While a class is written its pool grows, and what was written first refers to a pool that is not yet
complete.  What can be said of an index is therefore said of the tables that are read from the
finished pool: a table *covers* a pool if it has every entry of it at the index that the pool gave
out.  A pool only grows, so a table that covers it later covers it now.

* `Builder.Placed`, `Builder.Sound` — the invariant: indices tell the places of entries, those behind
  an entry with two slots and all others alike, and every bootstrap method that was put has a handle
  that can be read;
* `Constants.Covers` — a table and its bootstrap methods hold all that a pool holds;
* `Puts work Q` — work keeps the invariant, and any constants that cover the pool behind it cover
  the one before, with `Q` true of what the work gives;
* `puts_put`, `puts_bootstrap` — the two steps that everything is made of.
-/

namespace Downlevel

namespace Pool

/-- The places that an entry takes in a table. -/
def Entry.slots (item : Entry) : List (Option Entry) :=
  if item.isWide then [some item, none] else [some item]

/-- An entry takes as many places as it takes indices. -/
@[simp] theorem Entry.length_slots (item : Entry) : item.slots.length = item.width := by
  unfold slots width
  split <;> rfl

/-- Everything that is read from the pool of a class file: its table and its bootstrap methods. -/
structure Constants where
  table : Table
  bootstraps : Array Bootstrap

/-- A table has every entry of a pool at the index that the pool gave out. -/
def Table.Covers (table : Table) (pool : Builder) : Prop :=
  ∀ item index, pool.index[item]? = some index → index ≠ 0 ∧ table.get index = .ok item

/-- What is read for a bootstrap method that was put: its handle is looked up, its arguments are
still indices. -/
def Table.Reaches (table : Table) (placed : PlacedBootstrap) (bootstrap : Bootstrap) : Prop :=
  table.handle placed.handle = .ok bootstrap.handle ∧ bootstrap.arguments = placed.arguments

/-- Constants hold all that a pool holds. -/
structure Constants.Covers (constants : Constants) (pool : Builder) : Prop where
  table : constants.table.Covers pool
  bootstraps : ∀ placed n, pool.bootstrapIndex[placed]? = some n → n < 65536 ∧
    ∃ bootstrap, constants.bootstraps[n]? = some bootstrap ∧
      constants.table.Reaches placed bootstrap

namespace Builder

/-- The table that the entries of a pool make up. -/
def slots (pool : Builder) : List (Option Entry) :=
  none :: pool.entries.toList.flatMap Entry.slots

/-- Every entry stands at its index, and the next free index is behind all of them. -/
structure Placed (pool : Builder) : Prop where
  count : pool.count = pool.slots.length
  small : pool.count < 65536
  index : ∀ (item : Entry) (place : UInt16), pool.index[item]? = some place →
    pool.slots[place.toNat]? = some (some item)

/-- The invariant of a pool that is being filled. -/
structure Sound (pool : Builder) : Prop extends Placed pool where
  bootstrapIndex : ∀ (placed : PlacedBootstrap) (n : Nat), pool.bootstrapIndex[placed]? = some n →
    n < 65536 ∧ pool.bootstraps[n]? = some placed
  handles : ∀ placed ∈ pool.bootstraps.toList, ∃ handle, ∀ table : Table, table.Covers pool →
    table.handle placed.handle = .ok handle

/-- In an empty pool there is nothing that could stand elsewhere. -/
theorem placed_empty : Placed {} where
  count := rfl
  small := by decide
  index item index h := by simp at h

/-- An empty pool is sound. -/
theorem sound_empty : Sound {} where
  toPlaced := placed_empty
  bootstrapIndex placed n h := by simp at h
  handles placed h := by simp at h

/-- The table of the entries of a pool covers it if they stand at their indices. -/
theorem Placed.covers {pool : Builder} (h : pool.Placed) : Table.Covers ⟨pool.slots.toArray⟩ pool := by
  intro item index hindex
  have hslot := h.index item index hindex
  refine ⟨?_, ?_⟩
  · rintro rfl
    cases hslot
  · simp [Table.get, hslot]

/-- A pool that is covered by a table has bootstrap methods that complete the table. -/
theorem Sound.exists_covers {pool : Builder} (h : pool.Sound) {table : Table}
    (htable : table.Covers pool) :
    ∃ bootstraps : List Bootstrap,
      List.Forall₂ table.Reaches pool.bootstraps.toList bootstraps ∧
        Constants.Covers ⟨table, bootstraps.toArray⟩ pool := by
  have hreach : ∀ placed ∈ pool.bootstraps.toList, ∃ bootstrap, table.Reaches placed bootstrap := by
    intro placed hmem
    obtain ⟨handle, hhandle⟩ := h.handles placed hmem
    exact ⟨⟨handle, placed.arguments⟩, hhandle table htable, rfl⟩
  have hlist : ∃ bootstraps : List Bootstrap,
      List.Forall₂ table.Reaches pool.bootstraps.toList bootstraps := by
    generalize pool.bootstraps.toList = placed at hreach
    induction placed with
    | nil => exact ⟨[], .nil⟩
    | cons first rest ih =>
        obtain ⟨bootstrap, hfirst⟩ := hreach first List.mem_cons_self
        obtain ⟨bootstraps, hrest⟩ := ih fun other hmem => hreach other (List.mem_cons_of_mem _ hmem)
        exact ⟨bootstrap :: bootstraps, .cons hfirst hrest⟩
  obtain ⟨bootstraps, hbootstraps⟩ := hlist
  refine ⟨bootstraps, hbootstraps, htable, ?_⟩
  intro placed n hn
  obtain ⟨hsmall, hplaced⟩ := h.bootstrapIndex placed n hn
  refine ⟨hsmall, ?_⟩
  rw [← Array.getElem?_toList] at hplaced
  obtain ⟨hlt, hget⟩ := List.getElem?_eq_some_iff.mp hplaced
  have hlt' : n < bootstraps.length := hbootstraps.length_eq ▸ hlt
  have hpair := hbootstraps.get hlt hlt'
  refine ⟨bootstraps[n], by simp [hlt'], ?_⟩
  simpa [hget] using hpair

end Builder

end Pool

namespace PoolM

open Pool

variable {α β : Type}

/-- Work that keeps a pool sound and only adds to it; `Q` holds of its result in all constants that
cover the pool behind it. -/
def Puts (work : PoolM α) (Q : Constants → α → Prop) : Prop :=
  ∀ pool value pool', work pool = .ok (value, pool') → pool.Sound →
    pool'.Sound ∧ ∀ constants : Constants, constants.Covers pool' →
      constants.Covers pool ∧ Q constants value

/-- What work promises may be weakened. -/
theorem Puts.mono {work : PoolM α} {Q R : Constants → α → Prop} (h : Puts work Q)
    (hQR : ∀ constants value, Q constants value → R constants value) : Puts work R := by
  intro pool value pool' hrun hsound
  obtain ⟨hsound', hcovers⟩ := h pool value pool' hrun hsound
  refine ⟨hsound', fun constants hc => ?_⟩
  obtain ⟨hbefore, hQ⟩ := hcovers constants hc
  exact ⟨hbefore, hQR _ _ hQ⟩

/-- A value leaves the pool alone. -/
theorem puts_pure {value : α} {Q : Constants → α → Prop} (h : ∀ constants, Q constants value) :
    Puts (pure value) Q := by
  intro pool value' pool' hrun hsound
  obtain ⟨rfl, rfl⟩ := work_pure_eq_ok.mp hrun
  exact ⟨hsound, fun constants hc => ⟨hc, h constants⟩⟩

/-- Work in sequence.  What the first part promises may be used for the promise of the second. -/
theorem Puts.bind {work : PoolM α} {next : α → PoolM β} {Q : Constants → α → Prop}
    {R : Constants → β → Prop} (hwork : Puts work Q)
    (hnext : ∀ value, Puts (next value) fun constants result =>
      Q constants value → R constants result) : Puts (work >>= next) R := by
  intro pool result pool' hrun hsound
  obtain ⟨value, between, hfirst, hsecond⟩ := work_bind_eq_ok.mp hrun
  obtain ⟨hsound₁, hcovers₁⟩ := hwork _ _ _ hfirst hsound
  obtain ⟨hsound₂, hcovers₂⟩ := hnext _ _ _ _ hsecond hsound₁
  refine ⟨hsound₂, fun constants hc => ?_⟩
  obtain ⟨hbetween, hR⟩ := hcovers₂ constants hc
  obtain ⟨hbefore, hQ⟩ := hcovers₁ constants hbetween
  exact ⟨hbefore, hR hQ⟩

/-- Work of which only the result matters. -/
theorem Puts.map {work : PoolM α} {f : α → β} {Q : Constants → α → Prop}
    {R : Constants → β → Prop} (hwork : Puts work Q)
    (h : ∀ constants value, Q constants value → R constants (f value)) :
    Puts (work >>= fun value => pure (f value)) R :=
  hwork.bind fun value => puts_pure fun constants hQ => h constants value hQ

/-- What only has an outcome leaves the pool alone. -/
theorem puts_lift {outcome : Except Error α} {Q : Constants → α → Prop}
    (h : ∀ value, outcome = .ok value → ∀ constants, Q constants value) :
    Puts (liftM outcome : PoolM α) Q := by
  intro pool value pool' hrun hsound
  obtain ⟨houtcome, rfl⟩ := work_lift_eq_ok.mp hrun
  exact ⟨hsound, fun constants hc => ⟨hc, h value houtcome constants⟩⟩

/-- What is refused promises anything. -/
theorem puts_refuse (fault : WriteFault) {Q : Constants → α → Prop} : Puts (refuse fault) Q := by
  intro pool value pool' hrun
  cases hrun

/-- Naming the place of an error does not touch the pool. -/
theorem Puts.within {work : PoolM α} {Q : Constants → α → Prop} (h : Puts work Q)
    (fault : WriteFault) : Puts (work.within fault) Q := by
  intro pool value pool' hrun
  exact h pool value pool' (within_eq_ok.mp hrun)

/-- Work for every item of a list. -/
theorem puts_mapM {items : List α} {work : α → PoolM β} {Q : α → Constants → β → Prop}
    (h : ∀ item ∈ items, Puts (work item) (Q item)) :
    Puts (items.mapM work) fun constants results =>
      List.Forall₂ (fun item result => Q item constants result) items results := by
  induction items with
  | nil =>
      rw [List.mapM_nil]
      exact puts_pure fun _ => .nil
  | cons item items ih =>
      rw [List.mapM_cons]
      refine (h item List.mem_cons_self).bind fun first => ?_
      refine (ih fun other hmem => h other (List.mem_cons_of_mem _ hmem)).map ?_
      intro constants rest hrest hfirst
      exact .cons hfirst hrest

/-- What a table of a pool with another entry covers, covers the pool without it. -/
theorem covers_of_insert {pool : Builder} {item : Entry} {index : UInt16}
    (hnew : pool.index[item]? = none) {table : Table} {count : Nat} {entries : Array Entry}
    (h : table.Covers { pool with count, entries, index := pool.index.insert item index }) :
    table.Covers pool := by
  intro other found hfound
  refine h other found ?_
  rw [Std.HashMap.getElem?_insert]
  split
  case isTrue heq =>
    obtain rfl := eq_of_beq heq
    rw [hnew] at hfound
    cases hfound
  case isFalse => exact hfound

/-- So do constants of a pool with another bootstrap method. -/
theorem covers_of_push {pool : Builder} {placed : PlacedBootstrap} {n : Nat}
    (hnew : pool.bootstrapIndex[placed]? = none) {constants : Constants}
    {bootstraps : Array PlacedBootstrap}
    (h : constants.Covers
      { pool with bootstraps, bootstrapIndex := pool.bootstrapIndex.insert placed n }) :
    constants.Covers pool := by
  refine ⟨h.table, fun other m hother => h.bootstraps other m ?_⟩
  rw [Std.HashMap.getElem?_insert]
  split
  case isTrue heq =>
    obtain rfl := eq_of_beq heq
    rw [hnew] at hother
    cases hother
  case isFalse => exact hother

/-- A new entry, for which a pool has room, is given the index at which it stands. -/
theorem placed_insert {pool : Builder} {item : Entry} (hplaced : pool.Placed)
    (hroom : pool.count + item.width < 65536) :
    Builder.Placed { pool with
      count := pool.count + item.width
      entries := pool.entries.push item
      index := pool.index.insert item pool.count.toUInt16 } := by
  have hcount : pool.count.toUInt16.toNat = pool.count := UInt16.toNat_ofNat_of_lt' hplaced.small
  have hslots : Builder.slots { pool with
      count := pool.count + item.width
      entries := pool.entries.push item
      index := pool.index.insert item pool.count.toUInt16 } = pool.slots ++ item.slots := by
    simp [Builder.slots]
  refine ⟨?_, hroom, ?_⟩
  · rw [hslots, List.length_append, ← hplaced.count, Entry.length_slots]
  · intro other found hother
    rw [hslots]
    rw [Std.HashMap.getElem?_insert] at hother
    split at hother
    case isTrue heq =>
      obtain rfl := eq_of_beq heq
      simp only [Option.some.injEq] at hother
      subst hother
      rw [hcount, hplaced.count, List.getElem?_append_right (Nat.le_refl _), Nat.sub_self]
      unfold Entry.slots
      split <;> rfl
    case isFalse =>
      have hold := hplaced.index other found hother
      rw [List.getElem?_append_left (List.getElem?_eq_some_iff.mp hold).1, hold]

/-- A sound pool stays sound when it is given a new entry for which it has room. -/
theorem sound_insert {pool : Builder} {item : Entry} (hsound : pool.Sound)
    (hnew : pool.index[item]? = none) (hroom : pool.count + item.width < 65536) :
    Builder.Sound { pool with
      count := pool.count + item.width
      entries := pool.entries.push item
      index := pool.index.insert item pool.count.toUInt16 } := by
  refine ⟨placed_insert hsound.toPlaced hroom, hsound.bootstrapIndex, fun placed hmem => ?_⟩
  obtain ⟨handle, hhandle⟩ := hsound.handles placed hmem
  exact ⟨handle, fun table htable => hhandle table (covers_of_insert hnew htable)⟩

/-- A sound pool stays sound when it is given a bootstrap method for which it has room, if its tables
know the handle of that. -/
theorem sound_push {pool : Builder} {placed : PlacedBootstrap} (hsound : pool.Sound)
    (hroom : pool.bootstraps.size < 65536)
    (hhandle : ∃ handle, ∀ table : Table, table.Covers pool →
      table.handle placed.handle = .ok handle) :
    Builder.Sound { pool with
      bootstraps := pool.bootstraps.push placed
      bootstrapIndex := pool.bootstrapIndex.insert placed pool.bootstraps.size } := by
  refine ⟨⟨hsound.count, hsound.small, hsound.index⟩, ?_, ?_⟩
  · intro other n hother
    rw [Std.HashMap.getElem?_insert] at hother
    split at hother
    case isTrue heq =>
      obtain rfl := eq_of_beq heq
      simp only [Option.some.injEq] at hother
      subst hother
      exact ⟨hroom, by simp⟩
    case isFalse =>
      obtain ⟨hsmall, hget⟩ := hsound.bootstrapIndex other n hother
      refine ⟨hsmall, ?_⟩
      have hlt := (Array.getElem?_eq_some_iff.mp hget).1
      rw [Array.getElem?_push, if_neg (by omega), hget]
  · intro other hmem
    simp only [Array.toList_push, List.mem_append, List.mem_singleton] at hmem
    rcases hmem with hmem | rfl
    · exact hsound.handles other hmem
    · exact hhandle

/-- An entry that is put stands at its index, which is not zero. -/
theorem puts_put (item : Entry) :
    Puts (put item) fun constants index =>
      index ≠ 0 ∧ constants.table.get index = .ok item := by
  intro pool index pool' hrun hsound
  unfold put at hrun
  cases hfound : pool.index[item]? with
  | some old =>
      simp only [hfound, Except.ok.injEq, Prod.mk.injEq] at hrun
      obtain ⟨rfl, rfl⟩ := hrun
      exact ⟨hsound, fun constants hc => ⟨hc, hc.table item _ hfound⟩⟩
  | none =>
      simp only [hfound] at hrun
      split at hrun
      case isFalse => cases hrun
      case isTrue hroom =>
        simp only [Except.ok.injEq, Prod.mk.injEq] at hrun
        obtain ⟨rfl, rfl⟩ := hrun
        refine ⟨sound_insert hsound hfound hroom, fun constants hc => ⟨⟨?_, hc.bootstraps⟩, ?_⟩⟩
        · exact covers_of_insert hfound hc.table
        · exact hc.table item _ Std.HashMap.getElem?_insert_self

/-- A bootstrap method that is put stands at its index, if its handle can be looked up. -/
theorem puts_bootstrap {placed : PlacedBootstrap} {pool pool' : Builder} {index : UInt16}
    (hrun : bootstrap placed pool = .ok (index, pool')) (hsound : pool.Sound) {handle : Handle}
    (hhandle : ∀ constants : Constants, constants.Covers pool →
      constants.table.handle placed.handle = .ok handle) :
    pool'.Sound ∧ ∀ constants : Constants, constants.Covers pool' → constants.Covers pool ∧
      constants.bootstraps[index.toNat]? = some ⟨handle, placed.arguments⟩ := by
  -- Any table that covers the pool can be completed, so the handle is known to the table alone.
  have htable : ∀ table : Table, table.Covers pool → table.handle placed.handle = .ok handle := by
    intro table hcovers
    obtain ⟨bootstraps, -, hall⟩ := hsound.exists_covers hcovers
    exact hhandle _ hall
  have hreaches : ∀ (constants : Constants) bootstrap, constants.Covers pool →
      constants.table.Reaches placed bootstrap → bootstrap = ⟨handle, placed.arguments⟩ := by
    rintro constants ⟨found, arguments⟩ hc ⟨hfound, rfl⟩
    rw [hhandle constants hc, Except.ok.injEq] at hfound
    rw [hfound]
  unfold bootstrap at hrun
  cases hold : pool.bootstrapIndex[placed]? with
  | some n =>
      simp only [hold, Except.ok.injEq, Prod.mk.injEq] at hrun
      obtain ⟨rfl, rfl⟩ := hrun
      refine ⟨hsound, fun constants hc => ⟨hc, ?_⟩⟩
      obtain ⟨hsmall, bootstrap, hget, hreach⟩ := hc.bootstraps placed n hold
      rw [UInt16.toNat_ofNat_of_lt' hsmall, hget, hreaches constants bootstrap hc hreach]
  | none =>
      simp only [hold] at hrun
      split at hrun
      case isFalse => cases hrun
      case isTrue hroom =>
        simp only [Except.ok.injEq, Prod.mk.injEq] at hrun
        obtain ⟨rfl, rfl⟩ := hrun
        refine ⟨sound_push hsound hroom ⟨handle, htable⟩, fun constants hc => ?_⟩
        have hbefore : constants.Covers pool := covers_of_push hold hc
        obtain ⟨-, bootstrap, hget, hreach⟩ :=
          hc.bootstraps placed pool.bootstraps.size Std.HashMap.getElem?_insert_self
        rw [UInt16.toNat_ofNat_of_lt' hroom, hget, hreaches constants bootstrap hbefore hreach]
        exact ⟨hbefore, rfl⟩

end PoolM

section Filled

open Pool Builder

/-- The pool that some entries make up, each of them put once. -/
def Pool.Builder.filled (entries : List Entry) : Builder :=
  entries.foldl
    (fun pool item => { pool with
      count := pool.count + item.width
      entries := pool.entries.push item
      index := pool.index.insert item pool.count.toUInt16 })
    {}

/-- One more entry comes behind the others. -/
theorem Pool.Builder.filled_append (entries : List Entry) (item : Entry) :
    filled (entries ++ [item]) =
      { filled entries with
        count := (filled entries).count + item.width
        entries := (filled entries).entries.push item
        index := (filled entries).index.insert item (filled entries).count.toUInt16 } := by
  rw [filled, List.foldl_append]
  rfl

/-- What is not among the entries has no index. -/
theorem Pool.Builder.index_filled {entries : List Entry} {item : Entry} (h : item ∉ entries) :
    (filled entries).index[item]? = none := by
  induction entries using List.reverseRecOn with
  | nil => exact Std.HashMap.getElem?_empty
  | append_singleton entries other ih =>
      rw [List.mem_append, not_or, List.mem_singleton] at h
      obtain ⟨hentries, hother⟩ := h
      have hne : ¬(other == item) = true := by
        rw [beq_iff_eq]
        exact Ne.symm hother
      rw [filled_append, Std.HashMap.getElem?_insert, if_neg hne]
      exact ih hentries

/-- What is not in a pool yet gets the next index. -/
theorem PoolM.put_filled {entries : List Entry} {item : Entry} (h : item ∉ entries)
    (hsmall : (filled entries).count + item.width < 65536) :
    put item (filled entries) =
      .ok ((filled entries).count.toUInt16, filled (entries ++ [item])) := by
  rw [put, index_filled h, filled_append]
  exact if_pos hsmall

end Filled

end Downlevel
