import Typeloom.Proofs.Model.Declarations
import Typeloom.Proofs.Model.Translation

/-!
# Well-formed types

All kinds of types have one shape, so that a type could have arguments that its kind has no use
for, or lack one that it needs.  The analysis yields no such type: an array and an optional type
have one argument, and what is neither a tuple nor a union has no others.
-/

namespace Typeloom

/-- Whether a type has the arguments that its kind needs and no others, at any depth. -/
inductive TypeExpr.Formed : TypeExpr → Prop where
  | leaf {kind : TypeKind} (name : String) (constant : Json)
      (isLeaf : kind ∉ [.array, .tuple, .union, .optional]) : Formed ⟨kind, name, [], constant⟩
  | single {kind : TypeKind} (name : String) {argument : TypeExpr} (constant : Json)
      (isSingle : kind ∈ [.array, .optional]) (formed : Formed argument) :
      Formed ⟨kind, name, [argument], constant⟩
  | several {kind : TypeKind} (name : String) {arguments : List TypeExpr} (constant : Json)
      (isSeveral : kind ∈ [.tuple, .union]) (formed : ∀ argument ∈ arguments, Formed argument) :
      Formed ⟨kind, name, arguments, constant⟩

namespace Analysis

open TypeExpr (Formed)

theorem formed_optional {type : TypeExpr} (formed : Formed type) : Formed type.optional := by
  rw [TypeExpr.optional]
  split
  · exact formed
  · exact formed
  · exact .single "" .null (by simp) formed

theorem formed_anyOf {variants : List TypeExpr} (formed : ∀ variant ∈ variants, Formed variant) :
    Formed (anyOf variants) := by
  unfold anyOf
  split
  · exact .leaf "null" .null (by simp)
  · exact formed _ (by simp)
  · exact .several "" .null (by simp) formed

theorem formed_unionType {variants : List TypeExpr}
    (formed : ∀ variant ∈ variants, Formed variant) : Formed (unionType variants) := by
  have joined : Formed (anyOf (TypeExpr.distinct (variants.filter fun type => !type.isNull))) := by
    apply formed_anyOf
    intro variant occurs
    exact formed variant (List.mem_of_mem_filter (TypeExpr.mem_of_mem_distinct occurs))
  rw [unionType]
  split
  · exact formed_optional joined
  · exact joined

/-- Whether the types of all fields of a class are well-formed. -/
def FormedClass (definition : ClassDefinition) : Prop :=
  ∀ field ∈ definition.fields, Formed field.type

/-- A state grows by classes with well-formed types. -/
structure Forms (before after : State) : Prop where
  declarations_eq : after.declarations = before.declarations
  length_le : before.classes.length ≤ after.classes.length
  formed : ∀ definition ∈ after.classes, definition ∈ before.classes ∨ FormedClass definition

theorem Forms.refl (state : State) : Forms state state :=
  ⟨rfl, Nat.le_refl _, fun _ => Or.inl⟩

theorem Forms.trans {before middle after : State} (forms : Forms before middle)
    (formsOn : Forms middle after) : Forms before after where
  declarations_eq := formsOn.declarations_eq.trans forms.declarations_eq
  length_le := Nat.le_trans forms.length_le formsOn.length_le
  formed definition occurs :=
    (formsOn.formed definition occurs).elim (forms.formed definition) Or.inr

theorem forms_withClass {state : State} {place : Nat} {definition : ClassDefinition}
    (inside : place ≤ state.classes.length) (formed : FormedClass definition) :
    Forms state (state.withClass place definition) where
  declarations_eq := rfl
  length_le := by simp [State.withClass, List.length_insertIdx, inside]
  formed other occurs := by
    rcases (List.mem_insertIdx inside).mp occurs with rfl | old
    · exact Or.inr formed
    · exact Or.inl old

/-- Translating yields well-formed types. -/
def forming (declared : Table Key Declaration) : Discipline declared where
  Owns _ := True
  Grows := Forms
  Admits _ := Formed
  declarations_eq := Forms.declarations_eq
  length_le := Forms.length_le
  refl := Forms.refl
  trans := Forms.trans
  keeps _ := id
  anything := .leaf "" .null (by simp)
  primitive _ := .leaf _ .null (by simp)
  literal := .leaf _ _ (by simp)
  optional := formed_optional
  listOf := .single "" .null (by simp)
  tupleOf := .several "" .null (by simp)
  unionType := formed_unionType
  base _ _ := .leaf _ .null (by simp)
  declaredClass _ _ := .leaf _ .null (by simp)
  declaredEnum _ _ := .leaf _ .null (by simp)
  declaredOwner _ := trivial
  freshOwner _ := trivial
  inlineEnum _ _ _ _ := ⟨⟨rfl, Nat.le_refl _, fun _ => Or.inl⟩, .leaf _ .null (by simp)⟩
  inlineClass definition _ _ _ forms _ formed := by
    refine ⟨Forms.trans ?_ (forms_withClass forms.length_le formed), .leaf _ .null (by simp)⟩
    exact ⟨forms.declarations_eq, forms.length_le, forms.formed⟩

theorem ensures_formed (setting : Setting) :
    Ensures (analysis setting) {} fun _ after =>
      ∀ definition ∈ after.classes, FormedClass definition := by
  refine ensures_analysis
    (fun declared _ state => state.declarations = declared ∧
      ∀ definition ∈ state.classes, FormedClass definition) ?begins ?keeps ?ends
  case begins =>
    intro state declared
    exact ⟨rfl, by simp [declared.classes_eq]⟩
  case keeps =>
    rintro state depth declaration rest before declared isDeclared ⟨same, formed⟩
    refine (forming state.declarations).ensures_buildDeclaration isDeclared same ?_
      (fun _ _ _ _ => ⟨same, formed⟩) fun _ => ⟨same, formed⟩
    intro after definition _ _ _ forms _ fields
    have formsOn := forms.trans (forms_withClass forms.length_le fields)
    refine ⟨formsOn.declarations_eq.trans same, fun other occurs => ?_⟩
    exact (formsOn.formed other occurs).elim (formed other) id
  case ends =>
    rintro declared cut state ⟨-, formed⟩ areCut definition occurs
    obtain ⟨original, isOriginal, isCut⟩ := exists_of_mem_cut areCut occurs
    rw [FormedClass, isCut.fields_eq]
    exact formed original isOriginal

end Analysis

end Typeloom
