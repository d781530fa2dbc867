import Typeloom.Proofs.Model.Names
import Typeloom.Proofs.Model.References
import Typeloom.Proofs.Model.UnionTypes

/-!
# Types that are put together properly

Types of all kinds have one shape, and what renders them relies on more than the shape says.  An
optional type stands for one type that is neither optional nor admits everything; the variants of a
union are at least two, all different and none of them null; a primitive type has one of five names,
and a class or an enum is never without a name.  The analysis yields no other types, at any depth.
-/

namespace Typeloom

namespace TypeExpr

/-- Whether a type has the name and the arguments that its kind asks for. -/
def IsProper (type : TypeExpr) : Prop :=
  match type.kind with
  | .primitive => type.name ∈ Analysis.primitiveTypes ∧ type.arguments = []
  | .classRef | .enumRef => type.name ≠ "" ∧ type.arguments = []
  | .array => ∃ item, type.arguments = [item]
  | .tuple => True
  | .union =>
      2 ≤ type.arguments.length ∧
        (type.arguments.Pairwise fun earlier later => same later earlier = false) ∧
          ∀ variant ∈ type.arguments, variant.isNull = false
  | .optional => ∃ inner, type.arguments = [inner] ∧ inner.kind ≠ .optional ∧ inner.kind ≠ .any
  | .literal | .any => type.arguments = []

/-- Whether a type is put together properly at any depth. -/
def Proper (type : TypeExpr) : Prop :=
  ∀ part : TypeExpr, part.Occurs type → part.IsProper

theorem proper_iff {type : TypeExpr} :
    type.Proper ↔ type.IsProper ∧ ∀ argument ∈ type.arguments, argument.Proper := by
  constructor
  · intro proper
    exact ⟨proper type .self, fun _ isArgument part occurs =>
      proper part (.argument isArgument occurs)⟩
  · rintro ⟨isProper, ofArguments⟩ part occurs
    cases occurs with
    | self => exact isProper
    | argument isArgument occurs => exact ofArguments _ isArgument part occurs

theorem proper_leaf {type : TypeExpr} (isProper : type.IsProper) (isLeaf : type.arguments = []) :
    type.Proper :=
  proper_iff.mpr ⟨isProper, by simp [isLeaf]⟩

theorem proper_optional {type : TypeExpr} (proper : type.Proper) : type.optional.Proper := by
  rw [optional]
  split
  · exact proper
  · exact proper
  · rename_i notOptional notAny
    apply proper_iff.mpr
    constructor
    · exact ⟨type, rfl, notOptional, notAny⟩
    · simpa using proper

theorem pairwise_distinct (types : List TypeExpr) :
    (distinct types).Pairwise fun earlier later => same later earlier = false := by
  induction types using List.reverseRecOn with
  | nil => exact List.Pairwise.nil
  | append_singleton types type ih =>
      rw [distinct_concat]
      split
      · exact ih
      · rename_i isNew
        apply List.pairwise_append.mpr
        refine ⟨ih, List.pairwise_singleton _ _, ?_⟩
        simpa using isNew

end TypeExpr

namespace Analysis

open TypeExpr (Proper proper_iff proper_leaf)

theorem proper_anyOf {variants : List TypeExpr} (proper : ∀ variant ∈ variants, variant.Proper)
    (differ : variants.Pairwise fun earlier later => TypeExpr.same later earlier = false)
    (notNull : ∀ variant ∈ variants, variant.isNull = false) : (anyOf variants).Proper := by
  match variants with
  | [] => exact proper_leaf ⟨by decide, rfl⟩ rfl
  | [type] => exact proper type (List.mem_singleton_self type)
  | first :: second :: rest =>
      apply proper_iff.mpr
      constructor
      · exact ⟨Nat.le_add_left 2 rest.length, differ, notNull⟩
      · exact proper

theorem proper_unionType {variants : List TypeExpr}
    (proper : ∀ variant ∈ variants, variant.Proper) : (unionType variants).Proper := by
  have among {variant : TypeExpr}
      (isKept : variant ∈ TypeExpr.distinct (variants.filter fun type => !type.isNull)) :
      variant ∈ variants ∧ variant.isNull = false := by
    simpa using TypeExpr.mem_of_mem_distinct isKept
  have joined : (anyOf (TypeExpr.distinct (variants.filter fun type => !type.isNull))).Proper := by
    apply proper_anyOf
    · exact fun variant isKept => proper variant (among isKept).1
    · exact TypeExpr.pairwise_distinct _
    · exact fun variant isKept => (among isKept).2
  rw [unionType]
  split
  · exact TypeExpr.proper_optional joined
  · exact joined

/-- Whether the types of all fields of a class are put together properly. -/
def ProperClass (definition : ClassDefinition) : Prop :=
  ∀ field ∈ definition.fields, field.type.Proper

/-- A state grows by classes with proper types. -/
structure GrowsProperly (before after : State) : Prop where
  declarations_eq : after.declarations = before.declarations
  length_le : before.classes.length ≤ after.classes.length
  proper : ∀ definition ∈ after.classes, definition ∈ before.classes ∨ ProperClass definition

theorem GrowsProperly.refl (state : State) : GrowsProperly state state :=
  ⟨rfl, Nat.le_refl _, fun _ => Or.inl⟩

theorem GrowsProperly.trans {before middle after : State} (grows : GrowsProperly before middle)
    (growsOn : GrowsProperly middle after) : GrowsProperly before after where
  declarations_eq := growsOn.declarations_eq.trans grows.declarations_eq
  length_le := Nat.le_trans grows.length_le growsOn.length_le
  proper definition occurs :=
    (growsOn.proper definition occurs).elim (grows.proper definition) Or.inr

theorem growsProperly_withClass {state : State} {place : Nat} {definition : ClassDefinition}
    (inside : place ≤ state.classes.length) (proper : ProperClass definition) :
    GrowsProperly state (state.withClass place definition) where
  declarations_eq := rfl
  length_le := by simp [State.withClass, List.length_insertIdx, inside]
  proper other occurs := by
    rcases (List.mem_insertIdx inside).mp occurs with rfl | old
    · exact Or.inr proper
    · exact Or.inl old

theorem name_ne_empty_of_owner {names : Table String String} {owner property : String}
    (owned : owner ≠ "") : freshName names (owner ++ Naming.pascalCase property) ≠ "" :=
  freshName_ne_empty fun empty => owned (String.append_eq_empty_iff.mp empty).1

/-- Translating yields proper types if all declarations have a name. -/
def properly (declared : Table Key Declaration)
    (named : ∀ declaration ∈ Table.values declared, declaration.name ≠ "") :
    Discipline declared where
  Owns name := name ≠ ""
  Grows := GrowsProperly
  Admits _ := Proper
  declarations_eq := GrowsProperly.declarations_eq
  length_le := GrowsProperly.length_le
  refl := GrowsProperly.refl
  trans := GrowsProperly.trans
  keeps _ := id
  anything := proper_leaf rfl rfl
  primitive listed := proper_leaf ⟨listed, rfl⟩ rfl
  literal := proper_leaf rfl rfl
  optional := TypeExpr.proper_optional
  listOf proper := proper_iff.mpr ⟨⟨_, rfl⟩, by simpa [TypeExpr.listOf] using proper⟩
  tupleOf proper := proper_iff.mpr ⟨trivial, proper⟩
  unionType := proper_unionType
  base {state type} proper isClass := by
    have isProper := proper type .self
    rw [TypeExpr.IsProper, isClass] at isProper
    exact proper_leaf ⟨isProper.1, rfl⟩ rfl
  declaredClass isDeclared _ := proper_leaf ⟨named _ isDeclared, rfl⟩ rfl
  declaredEnum isDeclared _ := proper_leaf ⟨named _ isDeclared, rfl⟩ rfl
  declaredOwner := named _
  freshOwner := name_ne_empty_of_owner
  inlineEnum definition _ owned isFresh := by
    refine ⟨⟨rfl, Nat.le_refl _, fun _ => Or.inl⟩, proper_leaf ⟨?_, rfl⟩ rfl⟩
    exact isFresh ▸ name_ne_empty_of_owner owned
  inlineClass definition _ owned isFresh grows _ proper := by
    constructor
    · apply GrowsProperly.trans _ (growsProperly_withClass grows.length_le proper)
      exact ⟨grows.declarations_eq, grows.length_le, grows.proper⟩
    · exact proper_leaf ⟨isFresh ▸ name_ne_empty_of_owner owned, rfl⟩ rfl

theorem ensures_proper (setting : Setting) :
    Ensures (analysis setting) {} fun _ after =>
      ∀ definition ∈ after.classes, ProperClass definition := by
  refine ensures_analysis
    (fun declared _ state => state.declarations = declared ∧
      ∀ definition ∈ state.classes, ProperClass definition) ?begins ?keeps ?ends
  case begins =>
    intro state declared
    exact ⟨rfl, by simp [declared.classes_eq]⟩
  case keeps =>
    rintro state depth declaration rest before declared isDeclared ⟨same, proper⟩
    apply (properly state.declarations declared.name_ne_empty).ensures_buildDeclaration isDeclared
      same
    · intro after definition _ _ _ grows _ fields
      have growsOn := grows.trans (growsProperly_withClass grows.length_le fields)
      constructor
      · exact growsOn.declarations_eq.trans same
      · exact fun other occurs => (growsOn.proper other occurs).elim (proper other) id
    · exact fun _ _ _ _ => ⟨same, proper⟩
    · exact fun _ => ⟨same, proper⟩
  case ends =>
    rintro declared cut state ⟨-, proper⟩ areCut definition occurs
    obtain ⟨original, isOriginal, isCut⟩ := exists_of_mem_cut areCut occurs
    rw [ProperClass, isCut.fields_eq]
    exact proper original isOriginal

end Analysis

end Typeloom
