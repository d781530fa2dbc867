import Mathlib.Data.List.Nodup
import Mathlib.Data.List.Perm.Subperm
import Mathlib.Logic.Relation
import Typeloom.Model.Analysis

/-!
# Chains of bases

A class leads to its base, the base to its own base, and so on.  Such a chain ends at a class that
has no base or at a name that no class has, or else it runs into a cycle.  A walk along the chain
remembers the names that it has come through and so finds out which of the two it is.  There are
only as many names as classes, which bounds the steps of every walk.
-/

namespace Typeloom

namespace Analysis

/-- Whether a class with a name has a given base. -/
def DerivesFrom (classes : List ClassDefinition) (name base : String) : Prop :=
  ∃ definition ∈ classes, definition.name = name ∧ definition.base = some base

/-- Whether a chain of bases ends. -/
inductive ChainEnds (classes : List ClassDefinition) : Option String → Prop where
  | underived : ChainEnds classes none
  | unknown {base : String} (unknown : ∀ definition ∈ classes, definition.name ≠ base) :
      ChainEnds classes (some base)
  | next {definition : ClassDefinition} (occurs : definition ∈ classes)
      (ends : ChainEnds classes definition.base) : ChainEnds classes (some definition.name)

/-- The walk along a chain of bases that has come through some names, with no limit on its steps,
and whether it comes to one of them again. -/
inductive Walks (classes : List ClassDefinition) : List String → Option String → Bool → Prop where
  | underived {seen : List String} : Walks classes seen none false
  | again {seen : List String} {base : String} (isSeen : base ∈ seen) :
      Walks classes seen (some base) true
  | unknown {seen : List String} {base : String} (unseen : base ∉ seen)
      (unknown : classes.find? (·.name = base) = none) : Walks classes seen (some base) false
  | next {seen : List String} {base : String} {definition : ClassDefinition} {again : Bool}
      (unseen : base ∉ seen) (finds : classes.find? (·.name = base) = some definition)
      (walks : Walks classes (base :: seen) definition.base again) :
      Walks classes seen (some base) again

section Walks

variable {classes : List ClassDefinition} {seen : List String} {base : Option String}
  {again : Bool}

/-- As many steps as there are names left are enough for a walk. -/
theorem walks_returns {steps : Nat} (distinct : seen.Nodup)
    (within : seen ⊆ classes.map ClassDefinition.name)
    (enough : classes.length < seen.length + steps) :
    Walks classes seen base (returns classes steps seen base) := by
  induction steps generalizing seen base with
  | zero =>
      have short := (List.subperm_of_subset distinct within).length_le
      rw [List.length_map] at short
      omega
  | succ steps ih =>
      cases base with
      | none => exact .underived
      | some base =>
          rw [returns]
          by_cases isSeen : base ∈ seen
          · rw [List.contains_iff_mem.mpr isSeen, Bool.true_or]
            exact .again isSeen
          · rw [Bool.eq_false_iff.mpr (mt List.contains_iff_mem.mp isSeen), Bool.false_or]
            cases finds : classes.find? (·.name = base) with
            | none => exact .unknown isSeen finds
            | some definition =>
                obtain rfl : definition.name = base := by simpa using List.find?_some finds
                have isName : definition.name ∈ classes.map ClassDefinition.name :=
                  List.mem_map_of_mem (List.mem_of_find?_eq_some finds)
                refine .next isSeen finds (ih (List.nodup_cons.mpr ⟨isSeen, distinct⟩)
                  (List.cons_subset.mpr ⟨isName, within⟩) ?_)
                rw [List.length_cons]
                omega

/-- The walk from a class takes at most one step for each class and one more. -/
theorem walks_from {definition : ClassDefinition} (occurs : definition ∈ classes) :
    Walks classes [definition.name] definition.base
      (returns classes (classes.length + 1) [definition.name] definition.base) :=
  walks_returns (List.nodup_singleton _) (by simpa using List.mem_map_of_mem occurs)
    (by rw [List.length_singleton]; omega)

theorem Walks.chainEnds (walks : Walks classes seen base again) (isOver : again = false) :
    ChainEnds classes base := by
  induction walks with
  | underived => exact .underived
  | again isSeen => cases isOver
  | unknown unseen unknown =>
      refine .unknown fun definition occurs => ?_
      simpa using List.find?_eq_none.mp unknown definition occurs
  | @next seen base definition again unseen finds walks ih =>
      obtain rfl : definition.name = base := by simpa using List.find?_some finds
      exact .next (List.mem_of_find?_eq_some finds) (ih isOver)

/-- A walk that comes to a name again has come through a cycle, since every name that it has come
through leads to the present one. -/
theorem Walks.exists_cycle (walks : Walks classes seen base again) (isAgain : again = true)
    (leads : ∀ earlier ∈ seen, ∀ present ∈ base,
      Relation.TransGen (DerivesFrom classes) earlier present) :
    ∃ present ∈ base, ∃ name, Relation.ReflTransGen (DerivesFrom classes) present name ∧
      Relation.TransGen (DerivesFrom classes) name name := by
  induction walks with
  | underived => cases isAgain
  | again isSeen => exact ⟨_, rfl, _, .refl, leads _ isSeen _ rfl⟩
  | unknown => cases isAgain
  | @next seen base definition again unseen finds walks ih =>
      obtain rfl : definition.name = base := by simpa using List.find?_some finds
      have derives (further : String) (isBase : further ∈ definition.base) :
          DerivesFrom classes definition.name further :=
        ⟨definition, List.mem_of_find?_eq_some finds, rfl, isBase⟩
      have leadsOn : ∀ earlier ∈ definition.name :: seen, ∀ further ∈ definition.base,
          Relation.TransGen (DerivesFrom classes) earlier further := by
        intro earlier isEarlier further isBase
        rcases List.mem_cons.mp isEarlier with rfl | before
        · exact .single (derives further isBase)
        · exact (leads earlier before _ rfl).tail (derives further isBase)
      obtain ⟨further, isBase, name, path, cycle⟩ := ih isAgain leadsOn
      exact ⟨_, rfl, name, .head (derives further isBase) path, cycle⟩

end Walks

section Cycles

variable {classes : List ClassDefinition} {name : String}

/-- A chain that ends goes on to a chain that ends. -/
theorem ChainEnds.derives (distinct : (classes.map ClassDefinition.name).Nodup) {base : String}
    (ends : ChainEnds classes (some name)) (derives : DerivesFrom classes name base) :
    ChainEnds classes (some base) := by
  cases ends with
  | unknown unknown =>
      obtain ⟨definition, occurs, named, -⟩ := derives
      exact absurd named (unknown definition occurs)
  | @next definition occurs ends =>
      obtain ⟨same, occursToo, named, isBase⟩ := derives
      obtain rfl := List.inj_on_of_nodup_map distinct occurs occursToo named.symm
      exact isBase ▸ ends

/-- No cycle can be reached along a chain that ends. -/
theorem ChainEnds.not_cycle (distinct : (classes.map ClassDefinition.name).Nodup)
    (ends : ChainEnds classes (some name)) :
    ¬Relation.TransGen (DerivesFrom classes) name name := by
  generalize isName : some name = base at ends
  induction ends generalizing name with
  | underived => cases isName
  | unknown unknown =>
      cases isName
      intro cycle
      obtain ⟨_, ⟨definition, occurs, named, -⟩, -⟩ := Relation.TransGen.head'_iff.mp cycle
      exact unknown definition occurs named
  | @next definition occurs ends ih =>
      cases isName
      intro cycle
      obtain ⟨further, derives, path⟩ := Relation.TransGen.head'_iff.mp cycle
      obtain ⟨same, occursToo, named, isBase⟩ := derives
      obtain rfl := List.inj_on_of_nodup_map distinct occurs occursToo named.symm
      exact ih isBase.symm (.tail' path ⟨definition, occurs, rfl, isBase⟩)

theorem ChainEnds.reaches (distinct : (classes.map ClassDefinition.name).Nodup) {last : String}
    (ends : ChainEnds classes (some name))
    (path : Relation.ReflTransGen (DerivesFrom classes) name last) :
    ChainEnds classes (some last) := by
  induction path with
  | refl => exact ends
  | tail _ derives ih => exact ih.derives distinct derives

variable {definition : ClassDefinition}

theorem exists_cycle_of_returns (occurs : definition ∈ classes)
    (comesBack : returns classes (classes.length + 1) [definition.name] definition.base = true) :
    ∃ base ∈ definition.base, ∃ name,
      Relation.ReflTransGen (DerivesFrom classes) base name ∧
        Relation.TransGen (DerivesFrom classes) name name := by
  refine (walks_from occurs).exists_cycle comesBack fun earlier isFirst base isBase => ?_
  obtain rfl := List.mem_singleton.mp isFirst
  exact .single ⟨definition, occurs, rfl, isBase⟩

/-- The walk from a class comes to a name again just if the chain of its bases does not end. -/
theorem returns_eq_true_iff (distinct : (classes.map ClassDefinition.name).Nodup)
    (occurs : definition ∈ classes) :
    returns classes (classes.length + 1) [definition.name] definition.base = true ↔
      ¬ChainEnds classes definition.base := by
  constructor
  · intro comesBack ends
    obtain ⟨base, isBase, name, path, cycle⟩ := exists_cycle_of_returns occurs comesBack
    rw [Option.mem_def.mp isBase] at ends
    exact (ends.reaches distinct path).not_cycle distinct cycle
  · intro endless
    by_contra isOver
    exact endless ((walks_from occurs).chainEnds (Bool.eq_false_iff.mpr isOver))

/-- A chain that does not end runs into a cycle. -/
theorem exists_cycle_of_not_chainEnds (occurs : definition ∈ classes)
    (endless : ¬ChainEnds classes definition.base) :
    ∃ name, Relation.TransGen (DerivesFrom classes) name name := by
  have comesBack : returns classes (classes.length + 1) [definition.name] definition.base = true :=
    by_contra fun isOver =>
      endless ((walks_from occurs).chainEnds (Bool.eq_false_iff.mpr isOver))
  obtain ⟨_, _, name, _, cycle⟩ := exists_cycle_of_returns occurs comesBack
  exact ⟨name, cycle⟩

/-- If the chain of every class ends, there is no cycle. -/
theorem not_cycle_of_chainEnds (distinct : (classes.map ClassDefinition.name).Nodup)
    (ends : ∀ definition ∈ classes, ChainEnds classes definition.base) (name : String) :
    ¬Relation.TransGen (DerivesFrom classes) name name := by
  intro cycle
  obtain ⟨_, ⟨definition, occurs, rfl, -⟩, -⟩ := Relation.TransGen.head'_iff.mp cycle
  exact (ChainEnds.next occurs (ends definition occurs)).not_cycle distinct cycle

end Cycles

end Analysis

end Typeloom
