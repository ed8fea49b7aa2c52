import Downlevel.Proofs.Faults
import Downlevel.Proofs.Lower.Resolving

/-!
# Writing code in which all labels are placed

If all labels of code can be resolved, all labels that it refers to are among those that have places.
So writing a class with such code is never refused for a label.

* `SuperClasses.Placed` — what this needs of looking for common super classes;
* `ClassFile.toBytes_placed` — **a class in which all labels can be resolved** is written, or there is
  something wrong with it other than a label.
-/

namespace Downlevel

/-- A fault is about something else than a label without a place. -/
def Fault.Placed (fault : Fault) : Prop :=
  ¬ fault.AboutLabel

/-- Common super classes are found without faults about labels. -/
def SuperClasses.Placed {σ : Type} (supers : SuperClasses σ) : Prop :=
  ∀ a b, FailsOnly Fault.Placed (supers.common a b)

/-- That only the root of all classes is known does not depend on labels. -/
theorem SuperClasses.placed_objectOnly (σ : Type) : (SuperClasses.objectOnly σ).Placed :=
  fun _ _ => failsOnly_pure _

/-- **A class in which all labels can be resolved is written without faults about labels.** -/
theorem ClassFile.toBytes_placed {σ : Type} {supers : SuperClasses σ} (hsupers : supers.Placed)
    {cls : ClassFile} (hcls : cls.Resolves) (computeFrames : Bool) :
    FailsOnly Fault.Placed (cls.toBytes supers computeFrames) := by
  have hordinary (fault : Fault) (h : fault.Ordinary) : fault.Placed := h.1
  refine failsOnly_toBytes hsupers hordinary (fun m hm code hcode => ?_) computeFrames
  refine ⟨hordinary, .inl fun _ => (hcls m hm code hcode).mem_labels, .inr fun length index => ?_⟩
  rintro ⟨⟩

end Downlevel
