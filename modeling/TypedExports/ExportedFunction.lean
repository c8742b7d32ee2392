import TypedExports.Text.Basic

/-!
# Exported functions

What is known of one documented function: its name and what its comment says. An absent field and
an empty one are different values. `category` and `returnType` have a default that applies only
when they are absent.
-/

namespace TypedExports

/-- A parameter with its type and, if the comment describes it, the description. -/
structure Param where
  name : Text
  type : Text
  description : Option Text := none
  deriving DecidableEq, Repr

structure ExportedFunction where
  name : Text
  brief : Option Text := none
  category : Option Text := none
  params : List Param := []
  returnType : Option Text := none
  returnDescription : Option Text := none
  deriving DecidableEq, Repr

namespace ExportedFunction

def defaultCategory : Text := "Other".toList

def defaultReturnType : Text := "void".toList

/-- The category under which the function is listed. -/
def effectiveCategory (f : ExportedFunction) : Text := f.category.getD defaultCategory

def effectiveReturnType (f : ExportedFunction) : Text := f.returnType.getD defaultReturnType

/-- Every text of the function but its name has the property. -/
structure EveryText (P : Text → Prop) (f : ExportedFunction) : Prop where
  brief : ∀ value ∈ f.brief, P value
  category : ∀ value ∈ f.category, P value
  returnType : ∀ value ∈ f.returnType, P value
  returnDescription : ∀ value ∈ f.returnDescription, P value
  paramName : ∀ param ∈ f.params, P param.name
  paramType : ∀ param ∈ f.params, P param.type
  paramDescription : ∀ param ∈ f.params, ∀ value ∈ param.description, P value

instance (P : Text → Prop) [DecidablePred P] (f : ExportedFunction) : Decidable (f.EveryText P) :=
  decidable_of_iff
    ((∀ value ∈ f.brief, P value) ∧ (∀ value ∈ f.category, P value) ∧
      (∀ value ∈ f.returnType, P value) ∧ (∀ value ∈ f.returnDescription, P value) ∧
      ∀ param ∈ f.params, P param.name ∧ P param.type ∧ ∀ value ∈ param.description, P value)
    ⟨fun ⟨hbrief, hcategory, htype, hreturned, hparams⟩ =>
      ⟨hbrief, hcategory, htype, hreturned, fun param h => (hparams param h).1,
        fun param h => (hparams param h).2.1, fun param h => (hparams param h).2.2⟩,
      fun h => ⟨h.brief, h.category, h.returnType, h.returnDescription, fun param hparam =>
        ⟨h.paramName param hparam, h.paramType param hparam, h.paramDescription param hparam⟩⟩⟩

theorem EveryText.effectiveCategory {P : Text → Prop} {f : ExportedFunction}
    (h : f.EveryText P) (hdefault : P defaultCategory) : P f.effectiveCategory := by
  unfold ExportedFunction.effectiveCategory
  cases hcategory : f.category with
  | none => exact hdefault
  | some category => exact h.category category hcategory

theorem EveryText.effectiveReturnType {P : Text → Prop} {f : ExportedFunction}
    (h : f.EveryText P) (hdefault : P defaultReturnType) : P f.effectiveReturnType := by
  unfold ExportedFunction.effectiveReturnType
  cases htype : f.returnType with
  | none => exact hdefault
  | some type => exact h.returnType type htype

end ExportedFunction

end TypedExports
