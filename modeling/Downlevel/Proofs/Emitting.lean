import Downlevel.Encode.Class
import Downlevel.Proofs.Frames

/-!
# Writing with a pool and a state

Most parts of a class only fill the pool while they are written.  The code of methods also asks for
common super classes, so the writers of methods and of classes work on two states.  This file says
what their successful runs consist of.

* `emit_bind_eq_ok`, `emit_pool_eq_ok`, `emit_lift_eq_ok` — the parts of a successful sequence;
* `emit_mapM_pool`, `members_eq_ok` — going through a list;
* `code_run`, `codeBody_eq_ok`, `codeAttribute_run`, `method_run` — the parts of a method that is
  written;
* `behindPool_run`, `toBytes_run` — the parts of a class that is written.
-/

namespace Downlevel

variable {σ τ α β : Type} {s s' : σ}

/-- Work in sequence succeeds exactly if the parts do, the second from where the first ended. -/
theorem emit_bind_eq_ok {x : StateT τ (Task σ) α} {f : α → StateT τ (Task σ) β} {r : β}
    {p p' : τ} : (x >>= f) p s = (.ok (r, p'), s') ↔
      ∃ a q t, x p s = (.ok (a, q), t) ∧ f a q t = (.ok (r, p'), s') := by
  show (x p >>= fun one => f one.1 one.2) s = _ ↔ _
  rw [task_bind_eq_ok]
  constructor
  · rintro ⟨⟨a, q⟩, t, hx, hf⟩
    exact ⟨a, q, t, hx, hf⟩
  · rintro ⟨a, q, t, hx, hf⟩
    exact ⟨(a, q), t, hx, hf⟩

/-- A value leaves both states alone. -/
@[simp] theorem emit_pure_eq_ok {a r : α} {p p' : τ} :
    (pure a : StateT τ (Task σ) α) p s = (.ok (r, p'), s') ↔ a = r ∧ p = p' ∧ s = s' := by
  show ((Except.ok (a, p), s) : Except Error (α × τ) × σ) = _ ↔ _
  simp [and_assoc]

/-- A task leaves the other state alone. -/
@[simp] theorem emit_task_eq_ok {x : Task σ α} {r : α} {p p' : τ} :
    (liftM x : StateT τ (Task σ) α) p s = (.ok (r, p'), s') ↔ x s = (.ok r, s') ∧ p = p' := by
  show (x >>= fun a => pure (a, p)) s = _ ↔ _
  rw [task_bind_eq_ok]
  simp only [task_pure_eq_ok, Prod.mk.injEq]
  constructor
  · rintro ⟨a, t, hx, ⟨rfl, rfl⟩, rfl⟩
    exact ⟨hx, rfl⟩
  · rintro ⟨hx, rfl⟩
    exact ⟨r, s', hx, ⟨rfl, rfl⟩, rfl⟩

variable {pool pool' : Pool.Builder}

/-- Work that only fills the pool leaves the state alone. -/
@[simp] theorem emit_pool_eq_ok {work : PoolM α} {r : α} :
    (liftM work : Emit σ α) pool s = (.ok (r, pool'), s') ↔
      work pool = .ok (r, pool') ∧ s = s' := by
  show (work pool, s) = _ ↔ _
  simp

/-- Work that only has an outcome leaves the pool and the state alone. -/
@[simp] theorem emit_lift_eq_ok {x : Except Error α} {r : α} :
    (liftM x : Emit σ α) pool s = (.ok (r, pool'), s') ↔ x = .ok r ∧ pool = pool' ∧ s = s' := by
  show (liftM (liftM x : PoolM α) : Emit σ α) pool s = _ ↔ _
  rw [emit_pool_eq_ok, work_lift_eq_ok, and_assoc]

/-- Naming the place of an error does not touch values. -/
@[simp] theorem emit_within_eq_ok {work : Emit σ α} {fault : WriteFault} {r : α} :
    work.within fault pool s = (.ok (r, pool'), s') ↔ work pool s = (.ok (r, pool'), s') :=
  task_within_eq_ok

/-- Going through a list with work that only fills the pool only fills the pool. -/
theorem emit_mapM_pool {work : α → PoolM β} {items : List α} {results : List β} :
    (items.mapM fun item => (liftM (work item) : Emit σ β)) pool s = (.ok (results, pool'), s') ↔
      items.mapM work pool = .ok (results, pool') ∧ s = s' := by
  induction items generalizing pool pool' s s' results with
  | nil =>
      simp only [List.mapM_nil, emit_pure_eq_ok, work_pure_eq_ok]
      exact and_assoc.symm
  | cons item items ih =>
      simp only [List.mapM_cons, emit_bind_eq_ok, emit_pool_eq_ok, emit_pure_eq_ok, ih,
        work_bind_eq_ok, work_pure_eq_ok]
      constructor
      · rintro ⟨first, q, _, ⟨hfirst, rfl⟩, rest, q', _, ⟨hrest, rfl⟩, rfl, rfl, rfl⟩
        exact ⟨⟨first, q, hfirst, rest, q', hrest, rfl, rfl⟩, rfl⟩
      · rintro ⟨⟨first, q, hfirst, rest, q', hrest, rfl, rfl⟩, rfl⟩
        exact ⟨first, q, s, ⟨hfirst, rfl⟩, rest, q', s, ⟨hrest, rfl⟩, rfl, rfl, rfl⟩

/-- Going through a list succeeds only if the work on each of its items does. -/
theorem emit_mapM_each {work : α → StateT τ (Task σ) β} {items : List α} {results : List β} {p p' : τ}
    (h : items.mapM work p s = (.ok (results, p'), s')) : ∀ item ∈ items,
      ∃ result before after t t', work item before t = (.ok (result, after), t') := by
  induction items generalizing p p' s s' results with
  | nil => exact fun _ hnone => absurd hnone List.not_mem_nil
  | cons first rest ih =>
      rw [List.mapM_cons] at h
      obtain ⟨result, between, t, hfirst, h⟩ := emit_bind_eq_ok.mp h
      obtain ⟨_, _, _, hrest, -⟩ := emit_bind_eq_ok.mp h
      exact List.forall_mem_cons.mpr ⟨⟨result, p, between, s, t, hfirst⟩, ih hrest⟩

/-- What one step does to the pool, going through a list does, if doing so twice is doing so. -/
theorem emit_mapM_run {work : α → StateT τ (Task σ) β} (Moves : τ → τ → Prop)
    (refl : ∀ p, Moves p p) (trans : ∀ {p q r}, Moves p q → Moves q r → Moves p r)
    {items : List α}
    (step : ∀ item ∈ items, ∀ p s result p' s', work item p s = (.ok (result, p'), s') → Moves p p')
    {results : List β} {p p' : τ} (h : items.mapM work p s = (.ok (results, p'), s')) : Moves p p' := by
  induction items generalizing p s results with
  | nil =>
      obtain ⟨-, rfl, -⟩ := emit_pure_eq_ok.mp h
      exact refl p
  | cons item rest ih =>
      rw [List.mapM_cons] at h
      obtain ⟨first, between, t, hfirst, h⟩ := emit_bind_eq_ok.mp h
      obtain ⟨others, _, _, hothers, h⟩ := emit_bind_eq_ok.mp h
      obtain ⟨-, rfl, rfl⟩ := emit_pure_eq_ok.mp h
      have hrest := ih (fun other hmem => step other (List.mem_cons_of_mem _ hmem)) hothers
      exact trans (step item List.mem_cons_self _ _ _ _ _ hfirst) hrest

namespace Encode

variable {bytes : Bytes}

/-- A list is written item by item, with its length in front. -/
theorem listOf_eq_ok {what : String} {items : List α} {item : α → PoolM Bytes} :
    listOf what items item pool = .ok (bytes, pool') ↔
      items.length < 65536 ∧ ∃ parts, items.mapM item pool = .ok (parts, pool') ∧
        bytes = Bytes.ofU16 items.length.toUInt16 ++ parts.flatten := by
  simp only [listOf, count16, each, work_bind_eq_ok, work_lift_eq_ok, work_pure_eq_ok]
  constructor
  · rintro ⟨count, _, ⟨hcount, rfl⟩, _, _, ⟨parts, _, hparts, rfl, rfl⟩, rfl, rfl⟩
    split at hcount
    case isTrue hsmall =>
      cases hcount
      exact ⟨hsmall, parts, hparts, rfl⟩
    case isFalse => cases hcount
  · rintro ⟨hsmall, parts, hparts, rfl⟩
    exact ⟨_, _, ⟨if_pos hsmall, rfl⟩, _, _, ⟨parts, _, hparts, rfl, rfl⟩, rfl, rfl⟩

/-- Members are written one behind the other, with their number in front. -/
theorem members_eq_ok {cls : ClassName} {what : String} {items : List α}
    {member : α → Emit σ Bytes} :
    members cls what items member pool s = (.ok (bytes, pool'), s') ↔
      items.length < 65536 ∧ ∃ parts, items.mapM member pool s = (.ok (parts, pool'), s') ∧
        bytes = Bytes.ofU16 items.length.toUInt16 ++ parts.flatten := by
  simp only [members, count16, emit_bind_eq_ok, emit_lift_eq_ok, emit_pure_eq_ok]
  constructor
  · rintro ⟨count, _, _, ⟨hcount, rfl, rfl⟩, parts, _, _, hparts, rfl, rfl, rfl⟩
    split at hcount
    case isTrue hsmall =>
      cases hcount
      exact ⟨hsmall, parts, hparts, rfl⟩
    case isFalse => cases hcount
  · rintro ⟨hsmall, parts, hparts, rfl⟩
    exact ⟨_, _, _, ⟨if_pos hsmall, rfl, rfl⟩, parts, _, _, hparts, rfl, rfl, rfl⟩

/-- Members that only fill the pool leave the state alone. -/
theorem members_pool_eq_ok {cls : ClassName} {what : String} {items : List α}
    {work : α → PoolM Bytes} :
    members cls what items (fun item => (liftM (work item) : Emit σ Bytes)) pool s =
        (.ok (bytes, pool'), s') ↔
      items.length < 65536 ∧ (∃ parts, items.mapM work pool = .ok (parts, pool') ∧
        bytes = Bytes.ofU16 items.length.toUInt16 ++ parts.flatten) ∧ s = s' := by
  simp only [members_eq_ok, emit_mapM_pool]
  constructor
  · rintro ⟨hsmall, parts, ⟨hparts, rfl⟩, rfl⟩
    exact ⟨hsmall, ⟨parts, hparts, rfl⟩, rfl⟩
  · rintro ⟨hsmall, ⟨parts, hparts, rfl⟩, rfl⟩
    exact ⟨hsmall, parts, ⟨hparts, rfl⟩, rfl⟩

/-- Members that only fill the pool are written alike in every state. -/
theorem members_pool_again {cls : ClassName} {what : String} {items : List α}
    {work : α → PoolM Bytes}
    (h : members cls what items (fun item => (liftM (work item) : Emit σ Bytes)) pool s =
      (.ok (bytes, pool'), s')) (t : σ) :
    members cls what items (fun item => (liftM (work item) : Emit σ Bytes)) pool t =
      (.ok (bytes, pool'), t) := by
  obtain ⟨hsmall, hparts, -⟩ := members_pool_eq_ok.mp h
  exact members_pool_eq_ok.mpr ⟨hsmall, hparts, rfl⟩

variable {supers : SuperClasses σ} {computeFrames : Bool} {cls : ClassName} {method : Method}

/-- If frames are known, an analysis has found them.  If none are, then none are to be written. -/
theorem analysis_found {code : Code} {maxLocals maxStack : UInt16}
    {frames : Option (Array (Option Frame))}
    (h : analysis supers computeFrames cls method code maxLocals s =
      (.ok (maxStack, frames), s')) :
    (∃ (asked : SuperClasses σ) (found : Frame.Analysis), frames = some found.frames ∧
      Frame.analyze asked cls method code maxLocals s = (.ok found, s')) ∨
      frames = none ∧ computeFrames = false := by
  unfold analysis at h
  cases computeFrames with
  | true =>
      obtain ⟨found, _, hfound, h⟩ := task_bind_eq_ok.mp h
      obtain ⟨heq, rfl⟩ := task_pure_eq_ok.mp h
      cases heq
      exact .inl ⟨supers, found, rfl, task_within_eq_ok.mp hfound⟩
  | false =>
      rw [if_neg Bool.false_ne_true] at h
      cases hrun : Frame.analyze (SuperClasses.objectOnly σ) cls method code maxLocals s with
      | mk outcome between =>
        rw [hrun] at h
        cases outcome with
        | ok found =>
            cases h
            exact .inl ⟨_, found, rfl, hrun⟩
        | error error =>
            dsimp only at h
            split at h
            · cases h
            · cases hstack : code.maxStack with
              | none =>
                  rw [hstack] at h
                  cases h
              | some known =>
                  rw [hstack] at h
                  cases h
                  exact .inr ⟨rfl, rfl⟩

/-- If frames are known, there are as many of them as instructions. -/
theorem analysis_size {code : Code} {maxLocals maxStack : UInt16}
    {frames : Option (Array (Option Frame))}
    (h : analysis supers computeFrames cls method code maxLocals s =
      (.ok (maxStack, frames), s')) :
    ∀ found, frames = some found → found.size = code.instructions.length := by
  rintro known rfl
  rcases analysis_found h with ⟨_, found, heq, hrun⟩ | ⟨hnone, -⟩
  · cases heq
    exact Frame.analyze_size hrun
  · cases hnone

/-- The parts of code that is written: the sizes, the frames, and what stands behind the sizes. -/
theorem code_run {code : Code} :
    Encode.code supers computeFrames cls method code pool s = (.ok (bytes, pool'), s') ↔
      ∃ locals maxStack frames body, maxLocals method code = .ok locals ∧
        analysis supers computeFrames cls method code locals s = (.ok (maxStack, frames), s') ∧
        codeBody computeFrames code frames pool = .ok (body, pool') ∧
        bytes = Bytes.ofU16 maxStack ++ Bytes.ofU16 locals ++ body := by
  simp only [Encode.code, emit_bind_eq_ok, emit_lift_eq_ok, emit_task_eq_ok, emit_pool_eq_ok,
    emit_pure_eq_ok]
  constructor
  · rintro ⟨locals, _, _, ⟨hlocals, rfl, rfl⟩, ⟨maxStack, frames⟩, _, t, ⟨hanalysis, rfl⟩, body, _,
      _, ⟨hbody, rfl⟩, rfl, rfl, rfl⟩
    exact ⟨locals, maxStack, frames, body, hlocals, hanalysis, hbody, rfl⟩
  · rintro ⟨locals, maxStack, frames, body, hlocals, hanalysis, hbody, rfl⟩
    exact ⟨locals, _, _, ⟨hlocals, rfl, rfl⟩, (maxStack, frames), _, _, ⟨hanalysis, rfl⟩, body, _, _,
      ⟨hbody, rfl⟩, rfl, rfl, rfl⟩

/-- The parts of what stands behind the sizes of code. -/
theorem codeBody_eq_ok {code : Code} {frames : Option (Array (Option Frame))} {body : Bytes}
    (h : codeBody computeFrames code frames pool = .ok (body, pool')) :
    ∃ placed filled layout indices table between attributes rest,
      items code.instructions pool = .ok (placed, filled) ∧
      Layout.ofItems placed code.lastLabel = .ok layout ∧
      (Context.mk code layout frames).frameIndices = .ok indices ∧
      (Context.mk code layout frames).exceptionTable filled = .ok (table, between) ∧
      present ((Context.mk code layout frames).attributes computeFrames indices) between =
        .ok (attributes, pool') ∧
      counted "code" attributes = .ok rest ∧
      body = Bytes.ofU32 layout.size.toUInt32 ++ (Context.mk code layout frames).bytes ++ table ++
        rest := by
  obtain ⟨placed, filled, hitems, h⟩ := work_bind_eq_ok.mp h
  obtain ⟨layout, _, hlift, h⟩ := work_bind_eq_ok.mp h
  obtain ⟨hlayout, rfl⟩ := work_lift_eq_ok.mp hlift
  split at h
  next => cases h
  next =>
    obtain ⟨indices, _, hlift, h⟩ := work_bind_eq_ok.mp h
    obtain ⟨hindices, rfl⟩ := work_lift_eq_ok.mp hlift
    obtain ⟨table, between, htable, h⟩ := work_bind_eq_ok.mp h
    obtain ⟨attributes, _, hattributes, h⟩ := work_bind_eq_ok.mp h
    obtain ⟨rest, _, hlift, h⟩ := work_bind_eq_ok.mp h
    obtain ⟨hrest, rfl⟩ := work_lift_eq_ok.mp hlift
    obtain ⟨rfl, rfl⟩ := work_pure_eq_ok.mp h
    exact ⟨placed, filled, layout, indices, table, between, attributes, rest, hitems, hlayout,
      hindices, htable, hattributes, hrest, rfl⟩

/-- The attribute with the code of a method, if it has any. -/
theorem codeAttribute_run {parts : List Bytes} :
    codeAttribute supers computeFrames cls method pool s = (.ok (parts, pool'), s') ↔
      match method.code with
      | none => parts = [] ∧ pool = pool' ∧ s = s'
      | some code => ∃ bytes between part,
          Encode.code supers computeFrames cls method code pool s = (.ok (bytes, between), s') ∧
          sized "Code" (pure bytes) between = .ok (part, pool') ∧ parts = [part] := by
  unfold codeAttribute
  cases method.code with
  | none =>
      simp only [emit_pure_eq_ok]
      rw [eq_comm]
  | some code =>
      simp only [emit_bind_eq_ok, emit_within_eq_ok, emit_pool_eq_ok, emit_pure_eq_ok]
      constructor
      · rintro ⟨bytes, between, _, hcode, part, _, _, ⟨hsized, rfl⟩, rfl, rfl, rfl⟩
        exact ⟨bytes, between, part, hcode, hsized, rfl⟩
      · rintro ⟨bytes, between, part, hcode, hsized, rfl⟩
        exact ⟨bytes, between, _, hcode, part, _, _, ⟨hsized, rfl⟩, rfl, rfl, rfl⟩

/-- The parts of a method that is written, in their order. -/
theorem method_run :
    Encode.method supers computeFrames cls method pool s = (.ok (bytes, pool'), s') ↔
      ∃ name pool₁ descriptor pool₂ marks pool₃ code pool₄ rest all,
        indexed (PoolM.utf8 method.name) pool = .ok (name, pool₁) ∧
        indexed (PoolM.utf8 method.descriptor) pool₁ = .ok (descriptor, pool₂) ∧
        present (markers method.isDeprecated method.isSynthetic) pool₂ = .ok (marks, pool₃) ∧
        codeAttribute supers computeFrames cls method pool₃ s = (.ok (code, pool₄), s') ∧
        present (methodAttributes method) pool₄ = .ok (rest, pool') ∧
        counted "method" (marks ++ code ++ rest) = .ok all ∧
        bytes = Bytes.ofU16 method.access.toBits ++ name ++ descriptor ++ all := by
  simp only [Encode.method, emit_bind_eq_ok, emit_pool_eq_ok, emit_lift_eq_ok, emit_pure_eq_ok]
  constructor
  · rintro ⟨name, pool₁, _, ⟨hname, rfl⟩, descriptor, pool₂, _, ⟨hdescriptor, rfl⟩, marks, pool₃, _,
      ⟨hmarks, rfl⟩, code, pool₄, _, hcode, rest, _, _, ⟨hrest, rfl⟩, all, _, _, ⟨hall, rfl, rfl⟩,
      rfl, rfl, rfl⟩
    exact ⟨name, pool₁, descriptor, pool₂, marks, pool₃, code, pool₄, rest, all, hname, hdescriptor,
      hmarks, hcode, hrest, hall, rfl⟩
  · rintro ⟨name, pool₁, descriptor, pool₂, marks, pool₃, code, pool₄, rest, all, hname, hdescriptor,
      hmarks, hcode, hrest, hall, rfl⟩
    exact ⟨name, pool₁, _, ⟨hname, rfl⟩, descriptor, pool₂, _, ⟨hdescriptor, rfl⟩, marks, pool₃, _,
      ⟨hmarks, rfl⟩, code, pool₄, _, hcode, rest, _, _, ⟨hrest, rfl⟩, all, _, _, ⟨hall, rfl, rfl⟩,
      rfl, rfl, rfl⟩

/-- The parts of a class that is written behind its pool, in their order. -/
theorem behindPool_run {cls : ClassFile} :
    behindPool supers computeFrames cls pool s = (.ok (bytes, pool'), s') ↔
      ∃ name pool₁ superClass pool₂ interfaces pool₃ fields pool₄ methods pool₅ rest pool₆
        bootstraps all,
        indexed (PoolM.cls cls.name) pool = .ok (name, pool₁) ∧
        indexed (PoolM.optional cls.superClass PoolM.cls) pool₁ = .ok (superClass, pool₂) ∧
        members cls.name "interfaces" cls.interfaces
          (fun name => (indexed (PoolM.cls name) : PoolM Bytes)) pool₂ s =
            (.ok (interfaces, pool₃), s) ∧
        members cls.name "fields" cls.fields
          (fun f => ((field f).within (.inField f.name cls.name) : PoolM Bytes)) pool₃ s =
            (.ok (fields, pool₄), s) ∧
        members cls.name "methods" cls.methods
          (fun m => (Encode.method supers computeFrames cls.name m).within
            (.inMethod m.name m.descriptor cls.name)) pool₄ s = (.ok (methods, pool₅), s') ∧
        present (classAttributes cls) pool₅ = .ok (rest, pool₆) ∧
        bootstrapAttribute pool₆ = .ok (bootstraps, pool') ∧
        counted "class" (rest ++ bootstraps) = .ok all ∧
        bytes = Bytes.ofU16 cls.access.toBits ++ name ++ superClass ++ interfaces ++ fields ++
          methods ++ all := by
  simp only [behindPool, emit_bind_eq_ok, emit_pool_eq_ok, emit_lift_eq_ok, emit_pure_eq_ok]
  constructor
  · rintro ⟨name, pool₁, _, ⟨hname, rfl⟩, superClass, pool₂, _, ⟨hsuper, rfl⟩, interfaces, pool₃, _,
      hinterfaces, fields, pool₄, _, hfields, methods, pool₅, _, hmethods, rest, pool₆, _,
      ⟨hrest, rfl⟩, bootstraps, _, _, ⟨hbootstraps, rfl⟩, all, _, _, ⟨hall, rfl, rfl⟩, rfl, rfl, rfl⟩
    obtain rfl := (members_pool_eq_ok.mp hinterfaces).2.2
    obtain rfl := (members_pool_eq_ok.mp hfields).2.2
    exact ⟨name, pool₁, superClass, pool₂, interfaces, pool₃, fields, pool₄, methods, pool₅, rest,
      pool₆, bootstraps, all, hname, hsuper, hinterfaces, hfields, hmethods, hrest, hbootstraps, hall,
      rfl⟩
  · rintro ⟨name, pool₁, superClass, pool₂, interfaces, pool₃, fields, pool₄, methods, pool₅, rest,
      pool₆, bootstraps, all, hname, hsuper, hinterfaces, hfields, hmethods, hrest, hbootstraps, hall,
      rfl⟩
    exact ⟨name, pool₁, _, ⟨hname, rfl⟩, superClass, pool₂, _, ⟨hsuper, rfl⟩, interfaces, pool₃, _,
      hinterfaces, fields, pool₄, _, hfields, methods, pool₅, _, hmethods, rest, pool₆, _,
      ⟨hrest, rfl⟩, bootstraps, _, _, ⟨hbootstraps, rfl⟩, all, _, _, ⟨hall, rfl, rfl⟩, rfl, rfl, rfl⟩

end Encode

/-- The parts of a class that is written: its version, its pool, and what stands behind it. -/
theorem ClassFile.toBytes_run {supers : SuperClasses σ} {computeFrames : Bool} {cls : ClassFile}
    {bytes : Bytes} : cls.toBytes supers computeFrames s = (.ok bytes, s') ↔
      ∃ rest pool front, Encode.behindPool supers (computeFrames && cls.version.hasFrames) cls {} s =
          (.ok (rest, pool), s') ∧ pool.write = .ok front ∧
        bytes = Bytes.ofU32 0xcafebabe ++ Bytes.ofU16 cls.version.minor ++
          Bytes.ofU16 cls.version.major ++ front ++ rest := by
  unfold ClassFile.toBytes
  simp only [task_within_eq_ok, task_bind_eq_ok, task_lift_eq_ok, task_pure_eq_ok, Prod.exists]
  constructor
  · rintro ⟨rest, pool, _, hrest, front, _, ⟨hfront, rfl⟩, rfl, rfl⟩
    exact ⟨rest, pool, front, hrest, hfront, rfl⟩
  · rintro ⟨rest, pool, front, hrest, hfront, rfl⟩
    exact ⟨rest, pool, _, hrest, front, _, ⟨hfront, rfl⟩, rfl, rfl⟩

end Downlevel
