import Mathlib.Data.List.Forall2
import Typeloom.Proofs.Model.Ensures

/-!
# Cutting inheritance

Where a chain of bases comes back to itself, a class loses its base.  Nothing else of a class
changes, and no class is added, dropped or moved.
-/

namespace Typeloom

namespace Analysis

/-- Whether a class is another one as it is or without its base. -/
def CutFrom (definition cut : ClassDefinition) : Prop :=
  cut = definition ∨ cut = { definition with base := none }

theorem CutFrom.name_eq {definition cut : ClassDefinition} (isCut : CutFrom definition cut) :
    cut.name = definition.name := by
  rcases isCut with rfl | rfl <;> rfl

theorem CutFrom.source_eq {definition cut : ClassDefinition} (isCut : CutFrom definition cut) :
    cut.source = definition.source := by
  rcases isCut with rfl | rfl <;> rfl

theorem CutFrom.fields_eq {definition cut : ClassDefinition} (isCut : CutFrom definition cut) :
    cut.fields = definition.fields := by
  rcases isCut with rfl | rfl <;> rfl

theorem CutFrom.base_eq_of_some {definition cut : ClassDefinition} {name : String}
    (isCut : CutFrom definition cut) (isBase : cut.base = some name) :
    definition.base = some name := by
  rcases isCut with rfl | rfl
  · exact isBase
  · exact absurd isBase (by simp)

theorem CutFrom.again {definition cut : ClassDefinition} (isCut : CutFrom definition cut) :
    CutFrom definition { cut with base := none } := by
  rcases isCut with rfl | rfl <;> exact Or.inr rfl

/-- One more class may lose its base. -/
theorem cutFrom_set {classes cut : List ClassDefinition} (areCut : List.Forall₂ CutFrom classes cut)
    {place : Nat} {definition : ClassDefinition} (atPlace : cut[place]? = some definition) :
    List.Forall₂ CutFrom classes (cut.set place { definition with base := none }) := by
  induction areCut generalizing place with
  | nil => simp at atPlace
  | @cons first second firsts seconds isCut areCut ih =>
      cases place with
      | zero =>
          obtain rfl : second = definition := by simpa using atPlace
          exact .cons isCut.again areCut
      | succ place => exact .cons isCut (ih (by simpa using atPlace))

theorem ensures_cutCycles (index : Nat) (classes : List ClassDefinition) (state : State) :
    Ensures (cutCycles index classes) state fun cut after =>
      after = state ∧ List.Forall₂ CutFrom classes cut := by
  rw [cutCycles]
  have begins : List.Forall₂ CutFrom classes classes :=
    List.forall₂_same.mpr fun definition _ => Or.inl rfl
  refine ensures_foldlM (fun cut after => after = state ∧ List.Forall₂ CutFrom classes cut)
    ⟨rfl, begins⟩ ?_
  rintro cut place _ ⟨rfl, areCut⟩
  split
  · exact ensures_pure ⟨rfl, areCut⟩
  · rename_i definition atPlace
    split
    · exact ensures_bind (ensures_liftM fun _ =>
        ensures_pure ⟨rfl, cutFrom_set areCut atPlace⟩)
    · exact ensures_pure ⟨rfl, areCut⟩

theorem map_name_of_cutFrom {classes cut : List ClassDefinition}
    (areCut : List.Forall₂ CutFrom classes cut) :
    cut.map ClassDefinition.name = classes.map ClassDefinition.name := by
  induction areCut with
  | nil => rfl
  | cons isCut areCut ih => rw [List.map_cons, List.map_cons, isCut.name_eq, ih]

theorem exists_of_mem_cut {classes cut : List ClassDefinition}
    (areCut : List.Forall₂ CutFrom classes cut) {definition : ClassDefinition}
    (occurs : definition ∈ cut) : ∃ original ∈ classes, CutFrom original definition := by
  induction areCut with
  | nil => simp at occurs
  | @cons first second firsts seconds isCut areCut ih =>
      rcases List.mem_cons.mp occurs with rfl | later
      · exact ⟨first, List.mem_cons_self, isCut⟩
      · obtain ⟨original, member, isCut⟩ := ih later
        exact ⟨original, List.mem_cons_of_mem first member, isCut⟩

end Analysis

end Typeloom
