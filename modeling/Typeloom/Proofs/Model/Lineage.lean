import Mathlib.Data.List.Nodup
import Typeloom.Proofs.Model.BaseChains
import Typeloom.Proofs.Model.Clean

/-!
# Lineages

The lineage of a class consists of the class and those that it inherits from, the outermost base
first.  If no error is reported when cycles are cut, then there are none, and every class has a
lineage.
-/

namespace Typeloom

/-- The classes from which the class with a name inherits, and that class, the outermost base
first. -/
inductive Lineage (classes : List ClassDefinition) : String → List ClassDefinition → Prop where
  | root {definition : ClassDefinition} (occurs : definition ∈ classes)
      (underived : definition.base = none) : Lineage classes definition.name [definition]
  | derived {definition : ClassDefinition} {base : String} {inherited : List ClassDefinition}
      (occurs : definition ∈ classes) (derives : definition.base = some base)
      (further : Lineage classes base inherited) :
      Lineage classes definition.name (inherited ++ [definition])

namespace Lineage

variable {classes : List ClassDefinition} {name : String} {line : List ClassDefinition}

theorem ne_nil (lineage : Lineage classes name line) : line ≠ [] := by
  cases lineage <;> simp

theorem forall_mem_classes (lineage : Lineage classes name line) :
    ∀ definition ∈ line, definition ∈ classes := by
  induction lineage with
  | root occurs underived => exact List.forall_mem_singleton.mpr occurs
  | derived occurs derives further ih =>
      exact List.forall_mem_append.mpr ⟨ih, List.forall_mem_singleton.mpr occurs⟩

/-- A lineage ends with the class itself, and what stands before it is the lineage of its base. -/
theorem inversion (lineage : Lineage classes name line) :
    ∃ definition ∈ classes, definition.name = name ∧
      (definition.base = none ∧ line = [definition] ∨
        ∃ base inherited, definition.base = some base ∧ Lineage classes base inherited ∧
          line = inherited ++ [definition]) := by
  cases lineage with
  | root occurs underived => exact ⟨_, occurs, rfl, Or.inl ⟨underived, rfl⟩⟩
  | derived occurs derives further =>
      exact ⟨_, occurs, rfl, Or.inr ⟨_, _, derives, further, rfl⟩⟩

/-- The class with a name has no other lineage. -/
theorem unique (distinct : (classes.map ClassDefinition.name).Nodup)
    (lineage : Lineage classes name line) {other : List ClassDefinition}
    (another : Lineage classes name other) : line = other := by
  induction lineage generalizing other with
  | root occurs underived =>
      obtain ⟨candidate, isClass, named, ends⟩ := another.inversion
      obtain rfl := List.inj_on_of_nodup_map distinct isClass occurs named
      rcases ends with ⟨-, rfl⟩ | ⟨base, inherited, derives, -⟩
      · rfl
      · cases underived.symm.trans derives
  | derived occurs derives further ih =>
      obtain ⟨candidate, isClass, named, ends⟩ := another.inversion
      obtain rfl := List.inj_on_of_nodup_map distinct isClass occurs named
      rcases ends with ⟨underived, -⟩ | ⟨base, inherited, derivesOther, furtherOther, rfl⟩
      · cases underived.symm.trans derives
      · obtain rfl : _ = base := Option.some.inj (derives.symm.trans derivesOther)
        rw [ih furtherOther]

end Lineage

namespace Analysis

/-- A chain of bases that ends is the lineage of a class. -/
theorem exists_lineage_of_chainEnds {classes : List ClassDefinition}
    (closed : ∀ definition ∈ classes, ∀ name, definition.base = some name →
      ∃ base ∈ classes, base.name = name)
    {definition : ClassDefinition} (occurs : definition ∈ classes)
    (ends : ChainEnds classes definition.base) :
    ∃ line, Lineage classes definition.name line := by
  generalize derives : definition.base = base at ends
  induction ends generalizing definition with
  | underived => exact ⟨_, .root occurs derives⟩
  | unknown unknown =>
      obtain ⟨candidate, isClass, named⟩ := closed definition occurs _ derives
      exact absurd named (unknown candidate isClass)
  | next isClass _ ih =>
      obtain ⟨line, further⟩ := ih isClass rfl
      exact ⟨_, .derived occurs derives further⟩

/-- Whether the chain of bases of a class comes back to it. -/
def InheritsFromItself (classes : List ClassDefinition) (definition : ClassDefinition) : Prop :=
  returns classes (classes.length + 1) [definition.name] definition.base = true

/-- A class that does not inherit from itself has a lineage. -/
theorem exists_lineage_of_not_inheritsFromItself {classes : List ClassDefinition}
    (closed : ∀ definition ∈ classes, ∀ name, definition.base = some name →
      ∃ base ∈ classes, base.name = name)
    {definition : ClassDefinition} (occurs : definition ∈ classes)
    (acyclic : ¬ InheritsFromItself classes definition) :
    ∃ line, Lineage classes definition.name line :=
  exists_lineage_of_chainEnds closed occurs
    ((walks_from occurs).chainEnds (Bool.eq_false_iff.mpr acyclic))

/-! ## Cutting without an error -/

/-- The step of cutting cycles at one place. -/
def cutAt (classes : List ClassDefinition) (place : Nat) : Step (List ClassDefinition) :=
  match classes[place]? with
  | none => return classes
  | some definition =>
      if returns classes (classes.length + 1) [definition.name] definition.base then do
        liftM (Reporting.report .error ("class " ++ definition.name ++ " inherits from itself")
          (some (Text.before '#' definition.source)) none)
        return classes.set place { definition with base := none }
      else return classes

theorem cutCycles_eq (index : Nat) (classes : List ClassDefinition) :
    cutCycles index classes = (List.range' index (classes.length - index)).foldlM cutAt classes :=
  rfl

theorem steady_cutAt (classes : List ClassDefinition) (place : Nat) :
    Steady (cutAt classes place) := by
  unfold cutAt
  split
  · exact steady_pure _
  · split
    · exact steady_bind (steady_report ..) fun _ => steady_pure _
    · exact steady_pure _

theorem steady_cutCycles (index : Nat) (classes : List ClassDefinition) :
    Steady (cutCycles index classes) :=
  steady_foldlM steady_cutAt classes

/-- A class that inherits from itself is reported, so that without an error no class does that at
the place, and the classes are left as they are. -/
theorem clean_cutAt (classes : List ClassDefinition) (place : Nat) (state : State) :
    EnsuresClean (cutAt classes place) state fun cut after => after = state ∧ cut = classes ∧
      ∀ definition, classes[place]? = some definition →
        ¬ InheritsFromItself classes definition := by
  unfold cutAt
  split
  · rename_i nothing
    exact (ensures_pure ⟨rfl, rfl, by simp [nothing]⟩).clean
  · rename_i definition atPlace
    split
    · exact clean_bind (steady_report ..) (fun _ => steady_pure _) clean_report
    · rename_i ends
      refine (ensures_pure ⟨rfl, rfl, fun other same => ?_⟩).clean
      obtain rfl : definition = other := Option.some.inj (atPlace.symm.trans same)
      exact ends

/-- If no error is reported when cycles are cut, there are none. -/
theorem clean_cutCycles (classes : List ClassDefinition) (state : State) :
    EnsuresClean (cutCycles 0 classes) state fun cut after => after = state ∧ cut = classes ∧
      ∀ definition ∈ classes, ¬ InheritsFromItself classes definition := by
  rw [cutCycles_eq]
  -- A class that inherits from itself stands at a place that is still to be visited.
  refine (clean_foldlM
    (fun rest cut after => after = state ∧ cut = classes ∧
      ∀ place definition, classes[place]? = some definition → place ∈ rest ∨
        ¬ InheritsFromItself classes definition)
    steady_cutAt ⟨rfl, rfl, ?begins⟩ ?keeps).mono ?ends
  case begins =>
    intro place definition atPlace
    obtain ⟨inside, -⟩ := List.getElem?_eq_some_iff.mp atPlace
    exact Or.inl (by simpa using inside)
  case keeps =>
    rintro cut place rest after ⟨rfl, rfl, settled⟩
    refine (clean_cutAt cut place after).mono ?_
    rintro _ _ ⟨rfl, rfl, here⟩
    refine ⟨rfl, rfl, fun other definition atPlace => ?_⟩
    rcases settled other definition atPlace with pending | ends
    · rcases List.mem_cons.mp pending with rfl | pending
      · exact Or.inr (here definition atPlace)
      · exact Or.inl pending
    · exact Or.inr ends
  case ends =>
    rintro cut after ⟨same, uncut, settled⟩
    refine ⟨same, uncut, fun definition occurs => ?_⟩
    obtain ⟨place, atPlace⟩ := List.mem_iff_getElem?.mp occurs
    exact (settled place definition atPlace).resolve_left (by simp)

end Analysis

end Typeloom
