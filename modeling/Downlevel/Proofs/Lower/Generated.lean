import Downlevel.Proofs.Lower.Balanced
import Downlevel.Proofs.Lower.Resolved
import Downlevel.Proofs.Slots

/-!
# Generated methods pass the analysis

What passes generate is listed here, with the method that each body is put into.  All that code is
balanced: so its analysis does not stumble, and finds a frame for every instruction.

* `Pass.Generates` — the methods that passes generate, `Pass.run_generates` — these are all;
* `Pass.Generates.balanced` — their code is balanced;
* `Frame.Passes`, `Frame.passes_of_balanced` — code passes the analysis;
* `Pass.generated_passes` — **generated code passes the analysis**.
-/

namespace Downlevel

/-! ## Generated methods -/

/-- The methods with code that passes generate for a class.  Those that call a bootstrap method do it
through the handle that is given. -/
inductive Pass.Generates (cls : ClassFile) : Pass → Method → Code → Option Handle → Prop where
  | concat {caller : Method} {site : CallSite} {name : MethodName} {code : Code}
      (mem : caller ∈ cls.methods) (occurs : site ∈ Record.callSites caller)
      (h : Concat.generate site = .ok (some code)) :
      Generates cls .dynamicStringConcat
        (.ofCode cls.addedMethodAccess name site.descriptor code) code none
  | switch {caller : Method} {site : CallSite} {name : MethodName} {code : Code}
      (mem : caller ∈ cls.methods) (occurs : site ∈ Record.callSites caller)
      (h : Switch.generate site = .ok (some code)) :
      Generates cls .dynamicSwitchPatterns
        (.ofCode cls.addedMethodAccess name site.descriptor code) code none
  | bouncer {bouncer : Constants.Bouncer} {method : Method} {code : Code}
      {found found' : Constants.Found}
      (h : Constants.bouncerMethod cls bouncer found = .ok (method, found'))
      (held : method.code = some code) :
      Generates cls .explicitConstants method code (some bouncer.bootstrap)
  | accessor {name : String} {constant : Constants.Dynamic} {method : Method} {code : Code}
      {found found' : Constants.Found}
      (h : Constants.accessorMethod cls name constant found = .ok (method, found'))
      (held : method.code = some code) :
      Generates cls .explicitConstants method code (some constant.bootstrap)
  | standard {standard : Record.Standard} {method : Method} {code : Code}
      (named : Record.Standard.of? method = some standard)
      (h : Record.linkedBody cls.name (Record.components cls) standard = .ok code)
      (held : method.code = some code) :
      Generates cls .recordToClass method code none

/-- **Passes generate just these methods.**  Every method behind a pass was there, with code that was
only touched up, or it initializes the class, or it was generated. -/
theorem Pass.run_generates {pass : Pass} {cls : ClassFile} {lowered : Lowered}
    (h : pass.run cls = .ok lowered) : ∀ method' ∈ lowered.cls.methods,
      (∃ method ∈ cls.methods, method.Continues method') ∨
        Constants.emptyInitializer.Continues method' ∨
        ∃ code called, pass.Generates cls method' code called := by
  intro method' hmem
  cases pass with
  | dynamicStringConcat =>
      rcases ClassFile.replaceCallSites_methods h hmem with
        ⟨method, hmethod, hcontinues, -⟩ | ⟨caller, hcaller, site, hsite, name, body, hbody, rfl⟩
      · exact .inl ⟨method, hmethod, hcontinues⟩
      · exact .inr (.inr ⟨_, _, .concat hcaller hsite hbody⟩)
  | dynamicSwitchPatterns =>
      rcases ClassFile.replaceCallSites_methods h hmem with
        ⟨method, hmethod, hcontinues, -⟩ | ⟨caller, hcaller, site, hsite, name, body, hbody, rfl⟩
      · exact .inl ⟨method, hmethod, hcontinues⟩
      · exact .inr (.inr ⟨_, _, .switch hcaller hsite hbody⟩)
  | explicitConstants =>
      rcases Constants.dynamicConstants_methods h hmem with ⟨method, hmethod, hcontinues, -⟩ | hnew |
        ⟨_, _, _, hstep⟩ | ⟨_, _, _, _, hstep⟩
      · exact .inl ⟨method, hmethod, hcontinues⟩
      · exact .inr (.inl hnew)
      · obtain ⟨code, -, heq⟩ := Constants.bouncerMethod_run hstep
        exact .inr (.inr ⟨code, _, .bouncer hstep (heq ▸ rfl)⟩)
      · obtain ⟨code, -, heq⟩ := Constants.accessorMethod_run hstep
        exact .inr (.inr ⟨code, _, .accessor hstep (heq ▸ rfl)⟩)
  | recordToClass =>
      by_cases hrecord : cls.isRecord = true
      · simp only [run, Lower.recordToClass, if_pos hrecord, bind_eq_ok, pure_eq_ok] at h
        obtain ⟨methods, hmap, rfl⟩ := h
        obtain ⟨method, hmethod, hlower⟩ := exists_left_of_forall₂ (mapM_eq_ok_forall₂ hmap) hmem
        rcases Record.lowerMethod_cases hlower with
          ⟨hcontinues, -⟩ | ⟨standard, code, hstandard, hcode, rfl⟩
        · exact .inl ⟨method, hmethod, hcontinues⟩
        · exact .inr (.inr ⟨code, none, .standard hstandard hcode rfl⟩)
      · simp only [run, Lower.recordToClass, if_neg hrecord, pure_eq_ok] at h
        subst h
        exact .inl ⟨method', hmem, .of_same rfl rfl rfl⟩
  | moduleRemover | unsealClasses | nestHostToPackage | alwaysStrict | matchExceptionFixer |
      removeAttributes =>
      cases run_origin h method' hmem with
      | kept mem continues _ => exact .inl ⟨_, mem, continues⟩
      | rewritten _ _ _ _ writes => cases writes
      | added writes _ => cases writes
      | initializer continues => exact .inr (.inl continues)

namespace Pass.Generates

variable {pass : Pass} {cls : ClassFile} {method : Method} {code : Code} {called : Option Handle}

/-- The code of a generated method is written by its pass. -/
theorem writes (h : pass.Generates cls method code called) : pass.Writes cls code := by
  cases h with
  | concat _ _ h => exact .concat h
  | switch mem occurs h => exact .switch mem occurs h
  | bouncer h held =>
      obtain ⟨code', hcode, rfl⟩ := Constants.bouncerMethod_run h
      cases held
      exact .bouncer hcode
  | accessor h held =>
      obtain ⟨code', hcode, rfl⟩ := Constants.accessorMethod_run h
      cases held
      exact .accessor hcode
  | standard _ h _ => exact .standard h

/-- **Generated code is balanced.**  Only where records are compared, it matters that all parameters take
one slot. -/
theorem balanced (h : pass.Generates cls method code called) (hcls : cls.Countable)
    (hvoid : ∀ handle ∈ called, handle.ConstructsVoid) :
    ∃ sketch, code.Balanced sketch ∧
      (sketch.narrow = true → method.descriptor = Record.Standard.equals.descriptor) := by
  have hresolves := h.writes.resolves hcls
  cases h with
  | concat _ _ h => exact ⟨_, Concat.balanced_generate h hresolves, nofun⟩
  | switch _ _ h =>
      obtain ⟨cases, -, rfl⟩ := Switch.generate_eq_some h
      exact ⟨_, Switch.balanced_body hresolves, nofun⟩
  | bouncer h held =>
      obtain ⟨code', hcode, rfl⟩ := Constants.bouncerMethod_run h
      cases held
      exact ⟨_, Constants.balanced_bouncerCode (hvoid _ rfl) hcode hresolves, nofun⟩
  | accessor h held =>
      obtain ⟨code', hcode, rfl⟩ := Constants.accessorMethod_run h
      cases held
      exact ⟨_, Constants.balanced_accessorCode (hvoid _ rfl) hcode hresolves, nofun⟩
  | @standard standard _ _ named h held =>
      simp only [Record.linkedBody, within_eq_ok, bind_eq_ok, pure_eq_ok] at h
      obtain ⟨pieces, hpieces, rfl⟩ := h
      cases standard with
      | equals =>
          exact ⟨_, Record.balanced_equalsBody hpieces hresolves (Record.length_components hcls),
            fun _ => (Record.Standard.of_eq_some.mp named).2⟩
      | hashCode => exact ⟨_, Record.balanced_hashCodeBody hpieces hresolves, nofun⟩
      | toString => exact ⟨_, Record.balanced_toStringBody hpieces hresolves, nofun⟩

end Pass.Generates

/-! ## The analysis of generated methods -/

namespace Frame

/-- Code passes the analysis with some number of local variables: where that fails, it does not stumble;
and where it succeeds, every instruction has a frame, and is written as it is. -/
structure Passes {σ : Type} (supers : SuperClasses σ) (cls : ClassName) (method : Method) (code : Code)
    (maxLocals : UInt16) : Prop where
  fails : ∀ s error s', analyze supers cls method code maxLocals s = (.error error, s') →
    ∀ fault ∈ error.parts, ¬ fault.Stumbles
  framed : ∀ s found s', analyze supers cls method code maxLocals s = (.ok found, s') →
    ∀ index < code.instructions.length, ∃ frame, found.frames[index]? = some (some frame)
  written : ∀ s found s', analyze supers cls method code maxLocals s = (.ok found, s') →
    ∀ pool items filled layout, Encode.items code.instructions pool = .ok (items, filled) →
      Layout.ofItems items code.lastLabel = .ok layout →
        (Encode.Context.mk code layout (some found.frames)).bytes = layout.chunks.flatten

variable {σ : Type} {supers : SuperClasses σ} {cls : ClassName} {method : Method} {code : Code}
  {sketch : Sketch} {maxLocals : UInt16}

/-- Where all instructions have frames, they are written as they are. -/
theorem bytes_of_framed {frames : Array (Option Frame)} (hsize : frames.size = code.instructions.length)
    (hframes : ∀ index < code.instructions.length, ∃ frame, frames[index]? = some (some frame))
    {pool filled : Pool.Builder} {items : List (Option Label × CodeItem)} {layout : Layout}
    (hitems : Encode.items code.instructions pool = .ok (items, filled))
    (hlayout : Layout.ofItems items code.lastLabel = .ok layout) :
    (Encode.Context.mk code layout (some frames)).bytes = layout.chunks.flatten := by
  have hlive : ∀ isLive ∈ frames.toList.map Option.isSome, isLive = true := by
    intro isLive hmem
    obtain ⟨known, hknown, rfl⟩ := List.mem_map.mp hmem
    obtain ⟨index, hindex⟩ := List.mem_iff_getElem?.mp hknown
    rw [Array.getElem?_toList] at hindex
    have hlt := (Array.getElem?_eq_some_iff.mp hindex).1
    obtain ⟨frame, hframe⟩ := hframes index (hsize ▸ hlt)
    obtain rfl := Option.some.inj (hindex.symm.trans hframe)
    rfl
  have hchunks : (frames.toList.map Option.isSome).length = layout.chunks.length := by
    have hcount := (Layout.ofItems_starts hlayout).1
    have hfound := (Encode.items_ne_nil hitems).1
    rw [List.length_map, Array.length_toList, hsize, hcount, hfound]
  exact Encode.liveBytes_eq [] hlive hchunks

/-- **Balanced code passes the analysis**, whatever common super classes are found. -/
theorem passes_of_balanced (h : code.Balanced sketch) (hsupers : supers.Answers)
    (hlocals : Encode.maxLocals method code = .ok maxLocals)
    (hnarrow : sketch.narrow = true → method.descriptor = Record.Standard.equals.descriptor) :
    Passes supers cls method code maxLocals := by
  have hframed : ∀ s found s', analyze supers cls method code maxLocals s = (.ok found, s') →
      ∀ index < code.instructions.length, ∃ frame, found.frames[index]? = some (some frame) :=
    fun s found s' hrun index hindex => ((analyze_reachable hrun).1 index).mpr (h.reachable hindex)
  have hparameters : sketch.narrow = true → ∀ type, MethodType.parse method.descriptor = .ok type →
      ∀ parameter ∈ type.parameters, (VType.ofType parameter).isWide = false := by
    intro hyes type htype parameter hmem
    have hparse : MethodType.parse Record.Standard.equals.descriptor =
        .ok ⟨[.object ClassName.javaObject], some .boolean⟩ := by cbv
    rw [hnarrow hyes, hparse] at htype
    cases htype
    rw [List.mem_singleton.mp hmem]
    rfl
  refine ⟨fun s error s' hrun => ?_, hframed, ?_⟩
  · exact analyze_harmless h hsupers.harmless (Encode.le_maxLocals hlocals).2 hparameters error
      ⟨s, s', hrun⟩
  · intro s found s' hrun pool items filled layout hitems hlayout
    exact bytes_of_framed (analyze_size hrun) (hframed s found s' hrun) hitems hlayout

end Frame

/-- **Generated code passes the analysis.**  A class was read, and taken through any steps.  What a pass
generates for it then are just the methods that are listed, and each passes the analysis with the number
of local variables that is computed for it, if handles of constructors have descriptors without a
result. -/
theorem Pass.generated_passes {bytes : Bytes} {read cls : ClassFile}
    (hread : ClassFile.ofBytes bytes = .ok read)
    (hsteps : Relation.ReflTransGen ClassFile.Step read cls) (pass : Pass) :
    (∀ lowered, pass.run cls = .ok lowered → ∀ method' ∈ lowered.cls.methods,
      (∃ method ∈ cls.methods, method.Continues method') ∨
        Constants.emptyInitializer.Continues method' ∨
        ∃ code called, pass.Generates cls method' code called) ∧
    ∀ method code called, pass.Generates cls method code called →
      (∀ handle ∈ called, handle.ConstructsVoid) →
        ∀ maxLocals, Encode.maxLocals method code = .ok maxLocals →
          ∀ (σ : Type) (supers : SuperClasses σ), supers.Answers →
            Frame.Passes supers cls.name method code maxLocals := by
  refine ⟨fun lowered hrun => run_generates hrun, ?_⟩
  intro method code called hgenerates hvoid maxLocals hlocals σ supers hsupers
  have hcls := (ClassFile.resolves_of_steps hsteps (ClassFile.resolves_of_read hread)).2
  obtain ⟨sketch, hbalanced, hnarrow⟩ := hgenerates.balanced hcls hvoid
  exact Frame.passes_of_balanced hbalanced hsupers hlocals hnarrow

section Example

/-- A constant that a constructor makes. -/
def constructedConstant : Constants.Dynamic where
  name := "made"
  descriptor := "La/B;"
  bootstrap := .method .newSpecial ⟨"a/B", MethodName.constructor,
    "(Ljava/lang/invoke/MethodHandles$Lookup;Ljava/lang/String;Ljava/lang/Class;)V"⟩
  arguments := []

/-- The accessor of that constant passes the analysis in a class that was read. -/
theorem generated_passes_constructed : ∃ method code found,
    Constants.accessorMethod branchingClass "n" constructedConstant ⟨[], ⟨∅⟩⟩ =
        .ok (method, found) ∧
      method.code = some code ∧
      Frame.Passes (.objectOnly Unit) branchingClass.name method code 2 := by
  have hrun : ((Constants.accessorMethod branchingClass "n" constructedConstant
      ⟨[], ⟨∅⟩⟩).toOption.any fun outcome => outcome.1.code.toList.any fun code =>
        (Encode.maxLocals outcome.1 code).toOption.any fun locals => decide (locals = 2)) = true := by
    decide +kernel
  obtain ⟨⟨method, found⟩, haccessor, hany⟩ := exists_of_any hrun
  obtain ⟨code, hcode, hany⟩ := List.any_eq_true.mp hany
  obtain ⟨locals, hlocals, htwo⟩ := exists_of_any hany
  obtain rfl : locals = 2 := of_decide_eq_true htwo
  have hheld : method.code = some code := Option.mem_toList.mp hcode
  have hvoid : ∀ handle ∈ some constructedConstant.bootstrap, handle.ConstructsVoid := by
    intro handle hhandle target type htarget htype
    have hparse : MethodType.parse
        "(Ljava/lang/invoke/MethodHandles$Lookup;Ljava/lang/String;Ljava/lang/Class;)V" =
          .ok ⟨[.object ClassName.methodLookup, .object ClassName.javaString,
            .object ClassName.javaClass], none⟩ := by cbv
    obtain rfl := Option.some.inj hhandle
    cases htarget
    cases hparse.symm.trans htype
    rfl
  have hanswers : (SuperClasses.objectOnly Unit).Answers := fun _ _ _ _ _ s => ⟨_, s, rfl⟩
  have hpasses := (Pass.generated_passes ofBytes_branchingBytes .refl .explicitConstants).2 method code
    _ (.accessor haccessor hheld) hvoid 2 hlocals Unit (.objectOnly Unit) hanswers
  exact ⟨method, code, found, haccessor, hheld, hpasses⟩

end Example

end Downlevel
