import Mathlib
import Downlevel.Proofs.Pool.Table
import Downlevel.Proofs.RoundTrip.ClassAttributes

/-!
# Classes that are written and read again

A class that was read is written behind a pool that starts empty, and what is put in front is that
pool when it is full.  So all that the parts promise about constants that cover the pool can be used
at once, with the table and the bootstrap methods that are read from the finished bytes.  The reader
walks over the members twice: it passes over them to find the bootstrap methods among the attributes
of the class, and then goes back and reads them.

* `gives_cls` — what is known of a class that was read;
* `behindPool_reads` — what stands behind the pool, read with the constants of the pool;
* `ofBytes_toBytes` — a class that was read, if it is written without replacing any instruction, is
  read again, and is written again with the same bytes.
-/

namespace Downlevel

/-- A class as it may come back from its bytes: with methods that came back. -/
def ClassFile.Rereads (cls cls' : ClassFile) : Prop :=
  ∃ methods', List.Forall₂ Method.Rereads cls.methods methods' ∧
    cls' = { cls with methods := methods' }

namespace Encode

open Pool PoolM Parse

section Contexts

variable {σ : Type} (supers : SuperClasses σ) (computeFrames : Bool) (cls : ClassFile)

/-- What is written of a class in front of one of its methods. -/
def inFrontOf (front : List Method) : Emit σ Unit := do
  let _ ← (indexed (PoolM.cls cls.name) : PoolM Bytes)
  let _ ← (indexed (PoolM.optional cls.superClass PoolM.cls) : PoolM Bytes)
  let _ ← members cls.name "interfaces" cls.interfaces fun name =>
    (indexed (PoolM.cls name) : PoolM Bytes)
  let _ ← members cls.name "fields" cls.fields fun f =>
    ((field f).within (.inField f.name cls.name) : PoolM Bytes)
  let _ ← front.mapM fun m =>
    (method supers computeFrames cls.name m).within (.inMethod m.name m.descriptor cls.name)
  return

/-- No instruction of any method is replaced when a class is written. -/
def PlainClass (s : σ) : Prop :=
  ∀ front method behind pool s', cls.methods = front ++ method :: behind →
    inFrontOf supers computeFrames cls front {} s = (.ok ((), pool), s') →
      PlainMethod supers computeFrames cls.name method pool s'

end Contexts

section Reading

/-- **Every class that is read is one that a reader can give.** -/
theorem gives_cls : Gives Decode.cls KeptClass := by
  have hheader : Gives Decode.header fun found => found.1.major ≤ Version.newestMajor := by
    refine .after fun version => ?_
    split
    case isTrue => exact gives_refuse _
    case isFalse h => exact .after fun table => gives_pure (UInt16.not_lt.mp h)
  refine hheader.bind fun ⟨version, table⟩ hversion => .after fun bits => ?_
  refine .after fun _ => .look fun name hname => .after fun _ => .look fun superClass hsuper => ?_
  refine (gives_classes table).bind fun interfaces hinterfaces => .after fun _ => ?_
  refine .after fun _ => .after fun _ => ?_
  have hattributes : Gives (Decode.attributes table (Decode.classAttribute table)
      ({ version, access := ClassAccess.ofBits bits, name, superClass, interfaces }, none))
      fun state => KeptClass state.1 ∧ KeptBootstraps state.2 := by
    refine .after fun count => gives_iterate (fun state h => ?_) count.toNat ⟨?_, by rintro _ ⟨⟩⟩
    · exact .after fun _ => .look fun name _ => .after fun size =>
        gives_classAttribute table name size.toNat h.1 h.2
    · exact {
        version := hversion
        name := Table.cls_valid hname
        superClass := fun found hfound => Table.cls_valid (Table.optional_some hsuper hfound)
        interfaces := hinterfaces
        fields := fun field hmem => by cases hmem
        methods := fun method hmem => by cases hmem
        innerClasses := by rintro _ ⟨⟩
        enclosing := by rintro _ ⟨⟩
        annots := keptAnnots_empty
        moduleInfo := by rintro _ ⟨⟩
        moduleMainClass := by rintro _ ⟨⟩
        nestHost := by rintro _ ⟨⟩
        nestMembers := by rintro _ ⟨⟩
        permittedSubclasses := by rintro _ ⟨⟩
        recordComponents := by rintro _ ⟨⟩
        attributes := fun one hmem => by cases hmem }
  refine (hattributes.within _).bind fun ⟨cls, bootstraps⟩ ⟨hcls, hbootstraps⟩ => ?_
  have hall : ∀ bootstrap ∈ (bootstraps.getD []).toArray, KeptBootstrap bootstrap := by
    intro bootstrap hmem
    cases bootstraps with
    | none => simp at hmem
    | some found => exact hbootstraps found rfl bootstrap (by simpa using hmem)
  refine .after fun _ => ?_
  refine (gives_listOf ((gives_field table).within _)).bind fun fields hfields => ?_
  refine (gives_listOf ((gives_method hall).within _)).bind fun methods hmethods => ?_
  exact gives_pure { hcls with fields := hfields, methods := hmethods }

end Reading

section Bootstraps

/-- Putting an entry leaves the bootstrap methods alone. -/
theorem bootstraps_put {item : Entry} {pool pool' : Builder} {index : UInt16}
    (h : put item pool = .ok (index, pool')) : pool'.bootstraps = pool.bootstraps := by
  unfold put at h
  split at h
  · cases h
    rfl
  · split at h
    · cases h
      rfl
    · cases h

/-- An attribute whose contents leave the pool alone leaves the bootstrap methods alone. -/
theorem bootstraps_sized {name : String} {contents : PoolM Bytes} {pool pool' : Builder}
    {bytes : Bytes} (hcontents : ∀ {bytes pool'}, contents pool = .ok (bytes, pool') → pool = pool')
    (h : sized name contents pool = .ok (bytes, pool')) : pool'.bootstraps = pool.bootstraps := by
  obtain ⟨body, between, hbody, h⟩ := work_bind_eq_ok.mp h
  obtain rfl := hcontents hbody
  obtain ⟨name', between, hname, h⟩ := work_bind_eq_ok.mp h
  obtain ⟨length, between', hlength, h⟩ := work_bind_eq_ok.mp h
  obtain ⟨-, rfl⟩ := work_lift_eq_ok.mp hlength
  obtain ⟨-, rfl⟩ := work_pure_eq_ok.mp h
  obtain ⟨index, between', hindex, h⟩ := work_bind_eq_ok.mp hname
  obtain ⟨-, rfl⟩ := work_pure_eq_ok.mp h
  exact bootstraps_put hindex

/-- An index is read as it is. -/
theorem kept_index (index : UInt16) :
    Kept (fun index => pure (Bytes.ofU16 index)) (fun _ => u16) index :=
  puts_pure fun _ => reads_u16 index

/-- A bootstrap method is read as what its table reaches. -/
theorem reads_bootstrapMethod (placed : PlacedBootstrap) :
    Puts (bootstrapMethod placed) fun constants bytes =>
      ∀ bootstrap, constants.table.Reaches placed bootstrap →
        Reads (Decode.bootstrap constants.table) bytes bootstrap := by
  refine Puts.map (kept_listOf _ fun index _ => kept_index index) ?_
  rintro constants bytes hread ⟨handle, arguments⟩ ⟨hhandle, rfl⟩
  exact (reads_u16 placed.handle).bind (.look hhandle (hread.finish (reads_pure _)))

/-- Writing a list of bootstrap methods leaves the pool alone. -/
theorem listOf_bootstrapMethod {what : String} {items : List PlacedBootstrap}
    {pool pool' : Builder} {bytes : Bytes}
    (h : listOf what items bootstrapMethod pool = .ok (bytes, pool')) : pool = pool' := by
  obtain ⟨-, parts, hparts, -⟩ := listOf_eq_ok.mp h
  refine work_mapM_run Eq (fun _ => rfl) .trans (fun placed _ t part t' hpart => ?_) hparts
  obtain ⟨arguments, between, hlist, hpure⟩ := work_bind_eq_ok.mp hpart
  obtain ⟨-, rfl⟩ := work_pure_eq_ok.mp hpure
  obtain ⟨-, indices, hindices, -⟩ := listOf_eq_ok.mp hlist
  exact work_mapM_run Eq (fun _ => rfl) .trans
    (fun index _ t bytes t' hindex => (work_pure_eq_ok.mp hindex).2) hindices

/-- The list of the bootstrap methods of a pool is read as what a table reaches. -/
theorem reads_bootstrapMethods (placed : List PlacedBootstrap) :
    Puts (listOf "bootstrap methods" placed bootstrapMethod) fun constants bytes =>
      ∀ bootstraps : List Bootstrap, List.Forall₂ constants.table.Reaches placed bootstraps →
        Reads (Parse.listOf (Decode.bootstrap constants.table)) bytes bootstraps := by
  refine (puts_lift fun count hcount _ => count16_eq_ok.mp hcount).bind fun count => ?_
  refine (puts_each fun placed _ => reads_bootstrapMethod placed).map ?_
  rintro constants _ ⟨parts, rfl, hparts⟩ ⟨hsmall, rfl⟩ bootstraps hreaches
  rw [hreaches.length_eq] at hsmall ⊢
  refine reads_listOf ?_ hsmall
  exact forall₂_through (fun part placed bootstrap hpart hreach => hpart _ hreach) hparts hreaches

/-- **The attribute with the bootstrap methods is read as what the pool has of them.** -/
theorem bootstrapAttribute_reads {cls : ClassFile} {pool pool' : Builder} {parts : List Bytes}
    (hrun : bootstrapAttribute pool = .ok (parts, pool')) (hsound : pool.Sound) :
    pool'.Sound ∧ ∀ constants : Constants, constants.Covers pool' → constants.Covers pool ∧
      (List.Forall₂ constants.table.Reaches pool'.bootstraps.toList constants.bootstraps.toList →
        ∃ bootstraps, bootstraps.getD [] = constants.bootstraps.toList ∧
          Steps (readAttribute classStep constants) parts (cls, none) (cls, bootstraps) ∧
          Steps skipAttribute parts () ()) := by
  obtain ⟨found, between, hget, hrun⟩ := work_bind_eq_ok.mp hrun
  obtain ⟨rfl, rfl⟩ := work_get_eq_ok.mp hget
  split at hrun
  case isTrue hempty =>
    obtain ⟨rfl, rfl⟩ := work_pure_eq_ok.mp hrun
    refine ⟨hsound, fun constants hc => ⟨hc, fun hreaches => ⟨none, ?_, .done _, .done _⟩⟩⟩
    rw [List.isEmpty_iff.mp hempty] at hreaches
    exact (List.forall₂_nil_left_iff.mp hreaches).symm
  case isFalse hsome =>
    obtain ⟨part, _, hsized, hpure⟩ := work_bind_eq_ok.mp hrun
    obtain ⟨rfl, rfl⟩ := work_pure_eq_ok.mp hpure
    obtain ⟨hsound', hcovers⟩ := carries_sized _ (reads_bootstrapMethods _) _ _ _ hsized hsound
    have hsame := bootstraps_sized listOf_bootstrapMethod hsized
    refine ⟨hsound', fun constants hc => ?_⟩
    obtain ⟨hbefore, contents, hattribute, hread⟩ := hcovers constants hc
    refine ⟨hbefore, fun hreaches => ⟨some constants.bootstraps.toList, rfl, ?_, ?_⟩⟩
    · refine .more (hattribute.reads ?_) (.done _)
      rw [hsame] at hreaches
      exact (hread _ hreaches).finish (.look (once_none _ _) (reads_pure _))
    · exact .more hattribute.skips (.done _)

end Bootstraps

section Members

variable {σ : Type} {supers : SuperClasses σ} {computeFrames : Bool} {cls : ClassName}
  {pool pool' : Builder} {s s' : σ}

/-- **Interfaces that are written are read again.** -/
theorem interfaces_read {what : String} {names : List ClassName}
    (h : ∀ name ∈ names, Name.isValid .className name) (hsound : pool.Sound) {bytes : Bytes}
    (hrun : members cls what names (fun name => (indexed (PoolM.cls name) : PoolM Bytes)) pool s =
      (.ok (bytes, pool'), s')) :
    pool'.Sound ∧ ∀ constants : Constants, constants.Covers pool' → constants.Covers pool ∧
      Reads (Decode.classes constants.table) bytes names := by
  obtain ⟨hsmall, ⟨parts, hparts, rfl⟩, -⟩ := members_pool_eq_ok.mp hrun
  obtain ⟨hsound', hcovers⟩ := puts_mapM (fun name hname => kept_cls (h name hname)) _ _ _ hparts
    hsound
  refine ⟨hsound', fun constants hc => ?_⟩
  obtain ⟨hbefore, hread⟩ := hcovers constants hc
  exact ⟨hbefore, reads_listOf hread.flip hsmall⟩

/-- **Fields that are written are read again, and can be passed over.** -/
theorem fields_read {what : String} {fields : List Field} (h : ∀ field ∈ fields, KeptField field)
    (hsound : pool.Sound) {bytes : Bytes}
    (hrun : members cls what fields
      (fun f => ((field f).within (.inField f.name cls) : PoolM Bytes)) pool s =
        (.ok (bytes, pool'), s')) :
    pool'.Sound ∧ ∀ constants : Constants, constants.Covers pool' → constants.Covers pool ∧
      Reads (Parse.listOf ((Decode.field constants.table).within (.fieldOfClass cls))) bytes fields ∧
      Reads Decode.skipMembers bytes () := by
  obtain ⟨hsmall, ⟨parts, hparts, rfl⟩, -⟩ := members_pool_eq_ok.mp hrun
  obtain ⟨hsound', hcovers⟩ := puts_mapM (fun f hf => Puts.within (puts_field (h f hf)) _) _ _ _
    hparts hsound
  refine ⟨hsound', fun constants hc => ?_⟩
  obtain ⟨hbefore, hread⟩ := hcovers constants hc
  refine ⟨hbefore, reads_listOf (hread.flip.imp fun _ _ h => h.1.within _) hsmall, ?_⟩
  rw [hread.length_eq] at hsmall ⊢
  refine reads_skipMembers hsmall fun part hpart => ?_
  obtain ⟨f, -, hf⟩ := exists_left_of_forall₂ hread hpart
  exact hf.2

/-- Writing the methods of a class, each with its name in messages. -/
abbrev methodIn (supers : SuperClasses σ) (computeFrames : Bool) (cls : ClassName) (m : Method) :
    Emit σ Bytes :=
  (method supers computeFrames cls m).within (.inMethod m.name m.descriptor cls)

/-- No instruction of methods that are written one after the other is replaced. -/
def PlainMethods (supers : SuperClasses σ) (computeFrames : Bool) (cls : ClassName)
    (methods : List Method) (pool : Builder) (s : σ) : Prop :=
  ∀ front method behind parts pool' s', methods = front ++ method :: behind →
    front.mapM (methodIn supers computeFrames cls) pool s = (.ok (parts, pool'), s') →
      PlainMethod supers computeFrames cls method pool' s'

/-- **Methods that are written without replacing any instruction are read again**, and what is read
is written as the methods were. -/
theorem mapM_method_reads (hsteady : supers.Steady) {methods : List Method}
    (h : ∀ method ∈ methods, KeptMethod method) (hsound : pool.Sound)
    (hplain : PlainMethods supers computeFrames cls methods pool s) {parts : List Bytes}
    (hrun : methods.mapM (methodIn supers computeFrames cls) pool s = (.ok (parts, pool'), s')) :
    pool'.Sound ∧ ∀ constants : Constants, constants.Covers pool' → constants.Covers pool ∧
      ∃ methods', List.Forall₂ Method.Rereads methods methods' ∧
        List.Forall₂ (fun part method =>
          Reads (Decode.method constants.table constants.bootstraps) part method ∧
            Reads (skipMember ()) part ()) parts methods' ∧
        ∀ t, ∃ t', methods'.mapM (methodIn supers computeFrames cls) pool t =
          (.ok (parts, pool'), t') := by
  induction methods generalizing pool s parts with
  | nil =>
      obtain ⟨rfl, rfl, rfl⟩ := emit_pure_eq_ok.mp hrun
      refine ⟨hsound, fun constants hc => ⟨hc, [], .nil, .nil, fun t => ⟨t, ?_⟩⟩⟩
      exact emit_pure_eq_ok.mpr ⟨rfl, rfl, rfl⟩
  | cons method methods ih =>
      obtain ⟨hfirst, hothers⟩ := List.forall_mem_cons.mp h
      rw [List.mapM_cons] at hrun
      obtain ⟨part, between, t₁, hpart, hrun⟩ := emit_bind_eq_ok.mp hrun
      obtain ⟨rest, _, _, hrest, hrun⟩ := emit_bind_eq_ok.mp hrun
      obtain ⟨rfl, rfl, rfl⟩ := emit_pure_eq_ok.mp hrun
      have hplainFirst : PlainMethod supers computeFrames cls method pool s :=
        hplain [] method methods [] pool s rfl (emit_pure_eq_ok.mpr ⟨rfl, rfl, rfl⟩)
      have hplainRest : PlainMethods supers computeFrames cls methods between t₁ := by
        intro front other behind parts pool' s' heq hfront
        refine hplain (method :: front) other behind (part :: parts) pool' s' (by rw [heq]; rfl) ?_
        rw [List.mapM_cons]
        exact emit_bind_eq_ok.mpr ⟨part, between, t₁, hpart,
          emit_bind_eq_ok.mpr ⟨parts, pool', s', hfront, emit_pure_eq_ok.mpr ⟨rfl, rfl, rfl⟩⟩⟩
      obtain ⟨hsound₁, hcovers₁⟩ := method_reads hsteady hfirst hsound hplainFirst
        (emit_within_eq_ok.mp hpart)
      obtain ⟨hsound₂, hcovers₂⟩ := ih hothers hsound₁ hplainRest hrest
      refine ⟨hsound₂, fun constants hc => ?_⟩
      obtain ⟨hbetween, methods', hrereads, hreads, hagain⟩ := hcovers₂ constants hc
      obtain ⟨hbefore, method', hreread, hread, hskip, hagainFirst⟩ := hcovers₁ constants hbetween
      refine ⟨hbefore, method' :: methods', .cons hreread hrereads, .cons ⟨hread, hskip⟩ hreads,
        fun t => ?_⟩
      obtain ⟨t₁, hpart'⟩ := hagainFirst t
      obtain ⟨t₂, hrest'⟩ := hagain t₁
      refine ⟨t₂, ?_⟩
      rw [List.mapM_cons]
      exact emit_bind_eq_ok.mpr ⟨part, between, t₁, emit_within_eq_ok.mpr hpart',
        emit_bind_eq_ok.mpr ⟨rest, _, t₂, hrest', emit_pure_eq_ok.mpr ⟨rfl, rfl, rfl⟩⟩⟩

/-- Methods with their number in front are read again, and can be passed over. -/
theorem methods_read (hsteady : supers.Steady) {what : String} {methods : List Method}
    (h : ∀ method ∈ methods, KeptMethod method) (hsound : pool.Sound)
    (hplain : PlainMethods supers computeFrames cls methods pool s) {bytes : Bytes}
    (hrun : members cls what methods (methodIn supers computeFrames cls) pool s =
      (.ok (bytes, pool'), s')) :
    pool'.Sound ∧ ∀ constants : Constants, constants.Covers pool' → constants.Covers pool ∧
      ∃ methods', List.Forall₂ Method.Rereads methods methods' ∧
        Reads (Parse.listOf
          ((Decode.method constants.table constants.bootstraps).within (.methodOfClass cls))) bytes
          methods' ∧
        Reads Decode.skipMembers bytes () ∧
        ∀ t, ∃ t', members cls what methods' (methodIn supers computeFrames cls) pool t =
          (.ok (bytes, pool'), t') := by
  obtain ⟨hsmall, parts, hparts, rfl⟩ := members_eq_ok.mp hrun
  obtain ⟨hsound', hcovers⟩ := mapM_method_reads hsteady h hsound hplain hparts
  refine ⟨hsound', fun constants hc => ?_⟩
  obtain ⟨hbefore, methods', hrereads, hreads, hagain⟩ := hcovers constants hc
  rw [hrereads.length_eq] at hsmall ⊢
  refine ⟨hbefore, methods', hrereads,
    reads_listOf (hreads.imp fun _ _ h => h.1.within _) hsmall, ?_, fun t => ?_⟩
  · rw [← hreads.length_eq] at hsmall ⊢
    refine reads_skipMembers hsmall fun part hpart => ?_
    obtain ⟨_, -, hpart'⟩ := exists_right_of_forall₂ hreads hpart
    exact hpart'.2
  · obtain ⟨t', hparts'⟩ := hagain t
    exact ⟨t', members_eq_ok.mpr ⟨hsmall, parts, hparts', rfl⟩⟩

end Members

section Writing

/-- Reading everything behind the pool. -/
def readBehind (found : Version × Table) : Parse ClassFile := do
  let (version, pool) := found
  let access := ClassAccess.ofBits (← u16)
  let name ← pool.cls (← u16)
  let superClass ← Pool.Table.optional (← u16) pool.cls
  let interfaces ← Decode.classes pool
  let members ← get
  Decode.skipMembers
  Decode.skipMembers
  let (cls, bootstraps) ←
    (Decode.attributes pool (Decode.classAttribute pool)
      (({ version, access, name, superClass, interfaces } : ClassFile), none)).within
      (.attributesOfClass name)
  let bootstraps := (bootstraps.getD []).toArray
  set members
  let fields ← Parse.listOf ((Decode.field pool).within (.fieldOfClass name))
  let methods ← Parse.listOf ((Decode.method pool bootstraps).within (.methodOfClass name))
  return { cls with fields, methods }

variable {σ : Type} {supers : SuperClasses σ} {computeFrames : Bool} {cls : ClassFile}
  {pool : Builder} {s s' : σ}

/-- **What is written behind the pool is read again with the pool**, and what is read is written as
the class was. -/
theorem behindPool_reads (hsteady : supers.Steady) (h : KeptClass cls)
    (hplain : PlainClass supers computeFrames cls s) {bytes : Bytes}
    (hrun : behindPool supers computeFrames cls {} s = (.ok (bytes, pool), s')) :
    pool.Sound ∧ ∀ constants : Constants, constants.Covers pool →
      List.Forall₂ constants.table.Reaches pool.bootstraps.toList constants.bootstraps.toList →
      ∃ cls', cls.Rereads cls' ∧
        (∀ offset, StartsAt offset (readBehind (cls.version, constants.table)) bytes cls') ∧
        ∀ t, ∃ t', behindPool supers computeFrames cls' {} t = (.ok (bytes, pool), t') := by
  obtain ⟨name, pool₁, superClass, pool₂, interfaces, pool₃, fields, pool₄, methods, pool₅, rest,
    pool₆, bootstraps, all, hname, hsuper, hinterfaces, hfields, hmethods, hrest, hbootstraps, hall,
    rfl⟩ := behindPool_run.mp hrun
  obtain ⟨hsound₁, hcovers₁⟩ := puts_indexed (puts_cls h.name) _ _ _ hname Builder.sound_empty
  obtain ⟨hsound₂, hcovers₂⟩ := puts_optionalCls h.superClass _ _ _ hsuper hsound₁
  obtain ⟨hsound₃, hcovers₃⟩ := interfaces_read h.interfaces hsound₂ hinterfaces
  obtain ⟨hsound₄, hcovers₄⟩ := fields_read h.fields hsound₃ hfields
  have hplainMethods : PlainMethods supers computeFrames cls.name cls.methods pool₄ s := by
    intro front method behind parts pool' s' heq hfront
    refine hplain front method behind pool' s' heq ?_
    simp only [inFrontOf, emit_bind_eq_ok, emit_pool_eq_ok, emit_pure_eq_ok]
    exact ⟨name, _, _, ⟨hname, rfl⟩, superClass, _, _, ⟨hsuper, rfl⟩, interfaces, _, _, hinterfaces,
      fields, _, _, hfields, parts, _, _, hfront, trivial, rfl, rfl⟩
  obtain ⟨hsound₅, hcovers₅⟩ := methods_read hsteady h.methods hsound₄ hplainMethods hmethods
  obtain ⟨hsound₆, hcovers₆⟩ := puts_present (addsAll_class h) _ _ _ hrest hsound₅
  obtain ⟨hsound₇, hcovers₇⟩ := bootstrapAttribute_reads hbootstraps hsound₆
  refine ⟨hsound₇, fun constants hc hreaches => ?_⟩
  obtain ⟨hc₆, hboot⟩ := hcovers₇ constants hc
  obtain ⟨found, hfound, hreadBoot, hskipBoot⟩ := hboot hreaches
  obtain ⟨hc₅, hreadRest, hskipRest⟩ := hcovers₆ constants hc₆
  obtain ⟨hc₄, methods', hrereads, hreadMethods, hskipMethods, hagain⟩ := hcovers₅ constants hc₅
  obtain ⟨hc₃, hreadFields, hskipFields⟩ := hcovers₄ constants hc₄
  obtain ⟨hc₂, hreadInterfaces⟩ := hcovers₃ constants hc₃
  obtain ⟨hc₁, superIndex, rfl, hlookSuper⟩ := hcovers₂ constants hc₂
  obtain ⟨-, nameIndex, rfl, -, hlookName⟩ := hcovers₁ constants hc₁
  obtain ⟨hreadAll, -⟩ := reads_counted hall
    ⟨hreadRest.append hreadBoot, hskipRest.append hskipBoot⟩
  refine ⟨{ cls with methods := methods' }, ⟨methods', hrereads, rfl⟩, fun offset => ?_, fun t => ?_⟩
  · simp only [List.append_assoc]
    rw [← List.append_nil all]
    refine (reads_u16 _).startsAt ?_
    rw [ClassAccess.ofBits_toBits]
    refine (reads_u16 nameIndex).startsAt (.look hlookName ((reads_u16 superIndex).startsAt ?_))
    refine .look hlookSuper (hreadInterfaces.startsAt (startsAt_get ?_))
    -- The members are passed over to get to the attributes, and read from the same cursor.
    refine hskipFields.startsAt (hskipMethods.startsAt ((hreadAll.within _).startsAt ?_))
    have hbootstraps' : constants.bootstraps = (found.getD []).toArray := by
      rw [hfound, Array.toArray_toList]
    rw [hbootstraps'] at hreadMethods
    refine startsAt_set (hreadFields.startsAt (hreadMethods.startsAt (startsAt_pure _)))
  · obtain ⟨t', hmethods'⟩ := hagain t
    exact ⟨t', behindPool_run.mpr ⟨_, pool₁, _, pool₂, interfaces, pool₃, fields, pool₄, methods,
      pool₅, rest, pool₆, bootstraps, all, hname, hsuper,
      members_pool_again hinterfaces t, members_pool_again hfields t, hmethods', hrest, hbootstraps, hall, rfl⟩⟩

end Writing

end Encode

open Encode Parse

/-- **Every class of a class file is one that a reader can give.** -/
theorem ClassFile.keptClass_of_read {bytes : Bytes} {cls : ClassFile}
    (h : ofBytes bytes = .ok cls) : KeptClass cls := by
  unfold ofBytes at h
  cases hrun : Decode.cls (Cursor.start bytes) with
  | error error =>
      rw [hrun] at h
      cases h
  | ok result =>
      rw [hrun] at h
      cases h
      exact gives_cls _ _ _ hrun

/-- **A class that was read, if it is written without replacing any instruction, is read again**, and
what is read is written with the same bytes, whatever the state that the question for super classes
starts in. -/
theorem ClassFile.ofBytes_toBytes {σ : Type} {supers : SuperClasses σ} (hsteady : supers.Steady)
    {computeFrames : Bool} {bytes written : Bytes} {cls : ClassFile} {s s' : σ}
    (hread : ofBytes bytes = .ok cls)
    (hplain : PlainClass supers (computeFrames && cls.version.hasFrames) cls s)
    (hwrite : cls.toBytes supers computeFrames s = (.ok written, s')) :
    ∃ cls', ofBytes written = .ok cls' ∧ cls.Rereads cls' ∧
      ∀ t, ∃ t', cls'.toBytes supers computeFrames t = (.ok written, t') := by
  have hkept := keptClass_of_read hread
  obtain ⟨rest, pool, front, hrest, hfront, rfl⟩ := toBytes_run.mp hwrite
  obtain ⟨hsound, hreads⟩ := behindPool_reads hsteady hkept hplain hrest
  obtain ⟨bootstraps, hreaches, hcovers⟩ := hsound.exists_covers hsound.covers
  obtain ⟨cls', hrereads, hbehind, hagain⟩ := hreads _ hcovers hreaches
  have hversion : cls'.version = cls.version := by
    obtain ⟨methods', -, rfl⟩ := hrereads
    rfl
  refine ⟨cls', ?_, hrereads, fun t => ?_⟩
  · have hheader := Decode.reads_header hkept.version hsound.toPlaced hfront
    obtain ⟨cursor, hrun⟩ := hheader.startsAt (hbehind (0 + _))
    have hcls : Decode.cls (Cursor.start _) = .ok (cls', cursor) := hrun
    rw [ofBytes, hcls]
    rfl
  · obtain ⟨t', hrest'⟩ := hagain t
    refine ⟨t', toBytes_run.mpr ⟨rest, pool, front, ?_, hfront, ?_⟩⟩
    · rw [hversion]
      exact hrest'
    · rw [hversion]

section Example

/-- Code that jumps over an instruction if its argument is zero. -/
def branchingCode : Code where
  maxStack := some 1
  maxLocals := some 1
  instructions := [⟨some ⟨1⟩, .load .int 0⟩, ⟨none, .branch .eq ⟨0⟩⟩, ⟨none, .iinc 0 1⟩,
    ⟨some ⟨0⟩, .op .returnVoid⟩]
  lineNumbers := some [(⟨1⟩, 3), (⟨0⟩, 4)]

/-- A method with that code. -/
def branchingMethod : Method where
  access := { isStatic := true }
  name := "f"
  descriptor := "(I)V"
  code := some branchingCode

/-- A class of release 8 with that method. -/
def branchingClass : ClassFile where
  version := ⟨52, 0⟩
  access := { isSuper := true }
  name := "a/A"
  superClass := some ClassName.javaObject
  interfaces := []
  methods := [branchingMethod]

/-- The class file of that class. -/
def branchingBytes : Bytes :=
  [0xca, 0xfe, 0xba, 0xbe, 0x00, 0x00, 0x00, 0x34, 0x00, 0x0a, 0x01, 0x00, 0x03, 0x61, 0x2f, 0x41,
    0x07, 0x00, 0x01, 0x01, 0x00, 0x10, 0x6a, 0x61, 0x76, 0x61, 0x2f, 0x6c, 0x61, 0x6e, 0x67, 0x2f,
    0x4f, 0x62, 0x6a, 0x65, 0x63, 0x74, 0x07, 0x00, 0x03, 0x01, 0x00, 0x01, 0x66, 0x01, 0x00, 0x04,
    0x28, 0x49, 0x29, 0x56, 0x01, 0x00, 0x0d, 0x53, 0x74, 0x61, 0x63, 0x6b, 0x4d, 0x61, 0x70, 0x54,
    0x61, 0x62, 0x6c, 0x65, 0x01, 0x00, 0x0f, 0x4c, 0x69, 0x6e, 0x65, 0x4e, 0x75, 0x6d, 0x62, 0x65,
    0x72, 0x54, 0x61, 0x62, 0x6c, 0x65, 0x01, 0x00, 0x04, 0x43, 0x6f, 0x64, 0x65, 0x00, 0x20, 0x00,
    0x02, 0x00, 0x04, 0x00, 0x00, 0x00, 0x00, 0x00, 0x01, 0x00, 0x08, 0x00, 0x05, 0x00, 0x06, 0x00,
    0x01, 0x00, 0x09, 0x00, 0x00, 0x00, 0x34, 0x00, 0x01, 0x00, 0x01, 0x00, 0x00, 0x00, 0x08, 0x1a,
    0x99, 0x00, 0x06, 0x84, 0x00, 0x01, 0xb1, 0x00, 0x00, 0x00, 0x02, 0x00, 0x07, 0x00, 0x00, 0x00,
    0x0a, 0x00, 0x01, 0xff, 0x00, 0x07, 0x00, 0x01, 0x01, 0x00, 0x00, 0x00, 0x08, 0x00, 0x00, 0x00,
    0x0a, 0x00, 0x02, 0x00, 0x00, 0x00, 0x03, 0x00, 0x07, 0x00, 0x04, 0x00, 0x00]

/-- The class is read from its bytes. -/
theorem ofBytes_branchingBytes : ClassFile.ofBytes branchingBytes = .ok branchingClass := by
  unfold ClassFile.ofBytes Decode.cls Decode.method Decode.methodAttribute Decode.code
  rw [Decode.numberLabels_firstMet]
  decide +kernel

variable {σ : Type} (supers : SuperClasses σ) (s : σ)

/-- The class is written as its bytes. -/
theorem toBytes_branchingClass :
    branchingClass.toBytes supers true s = (.ok branchingBytes, s) := by
  cbv

/-- What the instructions are, but for the distance of the jump. -/
def branchingItems : List (Option Label × CodeItem) :=
  [(some ⟨1⟩, .plain [0x1a]), (none, .branch .eq ⟨0⟩), (none, .plain [0x84, 0x00, 0x01]),
    (some ⟨0⟩, .plain [0xb1])]

/-- All instructions of the class can be reached, and the jump is short. -/
theorem plainClass_branchingClass :
    PlainClass supers (true && branchingClass.version.hasFrames) branchingClass s := by
  rw [show (true && branchingClass.version.hasFrames) = true by decide]
  rintro front method behind pool s' hmethods - context pool' t hcontext
  obtain rfl : method = branchingMethod := by
    have hmem : method ∈ [branchingMethod] := by
      rw [show [branchingMethod] = front ++ method :: behind from hmethods]
      exact List.mem_append_right front List.mem_cons_self
    exact List.mem_singleton.mp hmem
  obtain ⟨code, _, _, _, _, _, filled, hheld, -, -, -, hcode⟩ := methodContext_run.mp hcontext
  obtain rfl : branchingCode = code := Option.some.inj hheld
  obtain ⟨locals, maxStack, frames, found, layout, hlocals, hanalysis, hfound, hlayout, rfl⟩ :=
    codeContext_run.mp hcode
  have hone : maxLocals branchingMethod branchingCode = .ok 1 := by cbv
  cases hone.symm.trans hlocals
  have hlive : analysis supers true "a/A" branchingMethod branchingCode 1 s' =
      (.ok (1, some #[some ⟨[.int], []⟩, some ⟨[.int], [.int]⟩, some ⟨[.int], []⟩, some ⟨[.int], []⟩]),
        s') := by
    cbv
  cases hlive.symm.trans hanalysis
  have hitems : items branchingCode.instructions filled = .ok (branchingItems, filled) := by cbv
  cases hitems.symm.trans hfound
  have hshort : (Layout.ofItems branchingItems none).toOption.any
      (fun layout => layout.wide.isEmpty) = true := by
    cbv
  obtain ⟨laid, hlaid, hnone⟩ := exists_of_any hshort
  cases hlaid.symm.trans hlayout
  refine ⟨fun isLive hlive => ?_, fun index _ _ _ =>
    Std.HashSet.isEmpty_iff_forall_contains.mp hnone index⟩
  have hall : ∀ isLive ∈ [true, true, true, true], isLive = true := by decide
  exact hall isLive hlive

/-- The class is read again from what was written of it. -/
theorem ofBytes_toBytes_branchingClass :
    ∃ cls', ClassFile.ofBytes branchingBytes = .ok cls' ∧ branchingClass.Rereads cls' ∧
      cls'.toBytes (.objectOnly Unit) true () = (.ok branchingBytes, ()) := by
  obtain ⟨cls', hread, hrereads, hwrite⟩ :=
    ClassFile.ofBytes_toBytes SuperClasses.steady_objectOnly ofBytes_branchingBytes
      (plainClass_branchingClass (.objectOnly Unit) ())
      (toBytes_branchingClass (.objectOnly Unit) ())
  obtain ⟨after, hagain⟩ := hwrite ()
  exact ⟨cls', hread, hrereads, hagain⟩

end Example

end Downlevel
