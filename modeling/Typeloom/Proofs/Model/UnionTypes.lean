import Mathlib.Data.List.Induction
import Mathlib.Data.Set.Lattice
import Typeloom.Proofs.Model.Ensures

/-!
# What the type of a union admits

The type of a union is put together from the types of its variants: null is pulled out, what
occurs twice counts once, and a single type stands for itself.  Read as a set of values, the result
admits what one of the variants admits.
-/

namespace Typeloom

/-- How types are read as sets of values, apart from what is fixed for all readings.  Types that
are the same are read as the same set. -/
structure Interpretation (Value : Type*) where
  null : Value
  others : TypeExpr → Set Value
  others_eq {left right : TypeExpr} : TypeExpr.same left right = true → others left = others right

namespace TypeExpr

theorem distinct_concat (types : List TypeExpr) (type : TypeExpr) :
    distinct (types ++ [type]) =
      if (distinct types).any (same type) then distinct types else distinct types ++ [type] := by
  simp [distinct]

theorem distinct_ne_nil {types : List TypeExpr} (nonempty : types ≠ []) : distinct types ≠ [] := by
  induction types using List.reverseRecOn with
  | nil => exact absurd rfl nonempty
  | append_singleton types type ih =>
      rw [distinct_concat]
      split
      · rename_i isKept
        obtain ⟨kept, occurs, -⟩ := List.any_eq_true.mp isKept
        exact List.ne_nil_of_mem occurs
      · simp

end TypeExpr

namespace Interpretation

variable {Value : Type*} (reading : Interpretation Value)

mutual

/-- The values that a type admits. -/
def admitted : TypeExpr → Set Value
  | ⟨.any, _, _, _⟩ => Set.univ
  | ⟨.optional, _, arguments, _⟩ => insert reading.null (admittedByOne arguments)
  | ⟨.union, _, arguments, _⟩ => admittedByOne arguments
  | type => if type.isNull then {reading.null} else reading.others type

/-- The values that at least one of several types admits. -/
def admittedByOne : List TypeExpr → Set Value
  | [] => ∅
  | type :: rest => admitted type ∪ admittedByOne rest

end

theorem admittedByOne_eq (types : List TypeExpr) :
    reading.admittedByOne types = ⋃ type ∈ types, reading.admitted type := by
  induction types with
  | nil => simp [admittedByOne]
  | cons type rest ih => simp [admittedByOne, ih]

theorem mem_admittedByOne {types : List TypeExpr} {value : Value} :
    value ∈ reading.admittedByOne types ↔ ∃ type ∈ types, value ∈ reading.admitted type := by
  simp [admittedByOne_eq]

/-! ## Types that are the same -/

theorem admitted_eq_of_same {left right : TypeExpr} (same : TypeExpr.same left right = true)
    (ofArguments : reading.admittedByOne left.arguments = reading.admittedByOne right.arguments) :
    reading.admitted left = reading.admitted right := by
  have others := reading.others_eq same
  obtain ⟨kind, name, arguments, constant⟩ := left
  obtain ⟨kind', name', arguments', constant'⟩ := right
  simp only [TypeExpr.same, Bool.and_eq_true, beq_iff_eq] at same
  obtain ⟨⟨⟨rfl, rfl⟩, -⟩, -⟩ := same
  cases kind <;> simp_all [admitted, TypeExpr.isNull]

mutual

theorem admitted_eq :
    ∀ {left right : TypeExpr}, TypeExpr.same left right = true →
      reading.admitted left = reading.admitted right
  | ⟨kind, name, arguments, constant⟩, ⟨kind', name', arguments', constant'⟩, same => by
      apply reading.admitted_eq_of_same same
      simp only [TypeExpr.same, Bool.and_eq_true] at same
      exact admittedByOne_eq_of_sameAll same.1.2

theorem admittedByOne_eq_of_sameAll :
    ∀ {lefts rights : List TypeExpr}, TypeExpr.sameAll lefts rights = true →
      reading.admittedByOne lefts = reading.admittedByOne rights
  | [], [], _ => rfl
  | left :: lefts, right :: rights, same => by
      rw [TypeExpr.sameAll, Bool.and_eq_true] at same
      rw [admittedByOne, admittedByOne, admitted_eq same.1, admittedByOne_eq_of_sameAll same.2]

end

/-! ## The parts of a union -/

theorem admitted_optional (type : TypeExpr) :
    reading.admitted type.optional = insert reading.null (reading.admitted type) := by
  obtain ⟨kind, name, arguments, constant⟩ := type
  cases kind <;> simp [TypeExpr.optional, admitted, admittedByOne]

theorem admitted_of_isNull {type : TypeExpr} (isNull : type.isNull = true) :
    reading.admitted type = {reading.null} := by
  obtain ⟨kind, name, arguments, constant⟩ := type
  cases kind <;> simp_all [TypeExpr.isNull, admitted]

theorem admitted_anyOf {types : List TypeExpr} (nonempty : types ≠ []) :
    reading.admitted (Analysis.anyOf types) = reading.admittedByOne types := by
  match types with
  | [type] => simp [Analysis.anyOf, admittedByOne]
  | _ :: _ :: _ => simp [Analysis.anyOf, TypeExpr.unionOf, admitted]

theorem admittedByOne_append (lefts rights : List TypeExpr) :
    reading.admittedByOne (lefts ++ rights) =
      reading.admittedByOne lefts ∪ reading.admittedByOne rights := by
  induction lefts with
  | nil => simp [admittedByOne]
  | cons left lefts ih => rw [List.cons_append, admittedByOne, ih, admittedByOne, Set.union_assoc]

/-- A type that is left out since it occurs already admits nothing new. -/
theorem admittedByOne_distinct (types : List TypeExpr) :
    reading.admittedByOne (TypeExpr.distinct types) = reading.admittedByOne types := by
  induction types using List.reverseRecOn with
  | nil => rfl
  | append_singleton types type ih =>
      rw [TypeExpr.distinct_concat, admittedByOne_append, ← ih]
      split
      · rename_i isKept
        obtain ⟨kept, occurs, same⟩ := List.any_eq_true.mp isKept
        have within : reading.admittedByOne [type] ⊆
            reading.admittedByOne (TypeExpr.distinct types) := by
          intro value admits
          apply reading.mem_admittedByOne.mpr
          exact ⟨kept, occurs, by simpa [admittedByOne, reading.admitted_eq same] using admits⟩
        exact (Set.union_eq_self_of_subset_right within).symm
      · rw [admittedByOne_append]

/-- Null is admitted by several types if it is one of them.  The other values are those that the
other types admit. -/
theorem admittedByOne_withoutNull (types : List TypeExpr) :
    reading.admittedByOne types =
      if types.any TypeExpr.isNull then
        insert reading.null (reading.admittedByOne (types.filter fun type => !type.isNull))
      else reading.admittedByOne (types.filter fun type => !type.isNull) := by
  induction types with
  | nil => rfl
  | cons type rest ih =>
      rw [admittedByOne, ih, List.any_cons]
      cases isNull : type.isNull with
      | true =>
          rw [reading.admitted_of_isNull isNull]
          split <;> simp [isNull, Set.singleton_union]
      | false =>
          rw [Bool.false_or, List.filter_cons_of_pos (by simp [isNull]), admittedByOne]
          split
          · rw [Set.union_insert]
          · rfl

/-- The type of a union admits what at least one of the types of its variants admits. -/
theorem admitted_unionType {types : List TypeExpr} (nonempty : types ≠ []) :
    reading.admitted (Analysis.unionType types) = reading.admittedByOne types := by
  rw [admittedByOne_withoutNull, Analysis.unionType]
  generalize isOther : types.filter (fun type => !type.isNull) = others
  by_cases none : others = []
  · subst none
    have isNull : types.any TypeExpr.isNull = true := by
      obtain ⟨type, occurs⟩ := List.exists_mem_of_ne_nil types nonempty
      have notOther := List.filter_eq_nil_iff.mp isOther type occurs
      exact List.any_eq_true.mpr ⟨type, occurs, by simpa using notOther⟩
    rw [if_pos isNull]
    simp [TypeExpr.distinct, Analysis.anyOf, TypeExpr.primitive, admitted, TypeExpr.isNull,
      admittedByOne]
  · have several := TypeExpr.distinct_ne_nil none
    have joined : reading.admitted (Analysis.anyOf (TypeExpr.distinct others)) =
        reading.admittedByOne others :=
      (reading.admitted_anyOf several).trans (reading.admittedByOne_distinct others)
    cases types.any TypeExpr.isNull <;> simp [several, admitted_optional, joined]

end Interpretation

namespace Analysis

section Unions

variable (setting : Setting) (follow : List Key → Declaration → Step TypeExpr)
  (resolving : List Key) (site : Site)

/-- Nodes are translated one after the other, each to one of the types. -/
inductive TranslateInTurn :
    List Node → State × Channel → List TypeExpr → State × Channel → Prop
  | none {moment : State × Channel} : TranslateInTurn [] moment [] moment
  | next {node : Node} {rest : List Node} {type : TypeExpr} {types : List TypeExpr}
      {start middle finish : State × Channel} :
      Leads (translateNode setting follow resolving site node) start type middle →
      TranslateInTurn rest middle types finish →
      TranslateInTurn (node :: rest) start (type :: types) finish

variable {setting follow resolving site}

theorem leads_translateNodes {nodes : List Node} {start finish : State × Channel}
    {types : List TypeExpr} :
    Leads (translateNodes setting follow resolving site nodes) start types finish ↔
      TranslateInTurn setting follow resolving site nodes start types finish := by
  induction nodes generalizing start types with
  | nil =>
      rw [translateNodes, leads_pure]
      constructor
      · rintro ⟨rfl, rfl⟩
        exact .none
      · rintro ⟨⟩
        exact ⟨rfl, rfl⟩
  | cons node rest ih =>
      rw [translateNodes, leads_bind]
      constructor
      · rintro ⟨type, middle, first, leads⟩
        obtain ⟨others, last, ofRest, ends⟩ := leads_bind.mp leads
        obtain ⟨rfl, rfl⟩ := leads_pure.mp ends
        exact .next first (ih.mp ofRest)
      · intro inTurn
        cases inTurn with
        | next first ofRest =>
            exact ⟨_, _, first, leads_bind.mpr ⟨_, _, ih.mpr ofRest, leads_pure.mpr ⟨rfl, rfl⟩⟩⟩

theorem TranslateInTurn.ne_nil {nodes : List Node} {start finish : State × Channel}
    {types : List TypeExpr}
    (inTurn : TranslateInTurn setting follow resolving site nodes start types finish)
    (nonempty : nodes ≠ []) : types ≠ [] := by
  cases inTurn with
  | none => exact absurd rfl nonempty
  | next => simp

/-- A union with at least one variant is translated if and only if its variants are, one after the
other.  In every reading of types as sets of values the type that comes of it admits the values
that one of the types of the variants admits, no more and no less. -/
theorem admitted_of_union (info : NodeInfo) (keyword : UnionKeyword) {variants : List Node}
    (nonempty : variants ≠ []) (start finish : State × Channel) :
    ((∃ type, Leads (translateNode setting follow resolving site (.union info keyword variants))
        start type finish) ↔
      ∃ types, TranslateInTurn setting follow resolving site variants start types finish) ∧
    ∀ type types,
      Leads (translateNode setting follow resolving site (.union info keyword variants)) start type
        finish →
      TranslateInTurn setting follow resolving site variants start types finish →
        ∀ {Value : Type*} (reading : Interpretation Value),
          reading.admitted type = ⋃ variant ∈ types, reading.admitted variant := by
  have inParts {type : TypeExpr} :
      Leads (translateNode setting follow resolving site (.union info keyword variants)) start type
          finish ↔
        ∃ types, Leads (translateNodes setting follow resolving site variants) start types finish ∧
          type = unionType types := by
    rw [translateNode, leads_bind]
    constructor
    · rintro ⟨types, middle, leads, ends⟩
      obtain ⟨rfl, rfl⟩ := leads_pure.mp ends
      exact ⟨types, leads, rfl⟩
    · rintro ⟨types, leads, rfl⟩
      exact ⟨types, finish, leads, leads_pure.mpr ⟨rfl, rfl⟩⟩
  constructor
  · simp [inParts, leads_translateNodes]
  · intro type types leads inTurn Value reading
    obtain ⟨translated, fromVariants, rfl⟩ := inParts.mp leads
    obtain ⟨rfl, -⟩ := leads_unique fromVariants (leads_translateNodes.mpr inTurn)
    rw [reading.admitted_unionType (inTurn.ne_nil nonempty), reading.admittedByOne_eq]

end Unions

/-- The variants of a union of which one is nullable and another one occurs twice. -/
def nullableVariants : List Node :=
  [.union default .oneOf [.primitive default (.text "string"), .primitive default (.text "null")],
    .primitive default (.text "integer"), .primitive default (.text "string"),
    .primitive default (.text "integer")]

theorem admitted_of_nullableVariants :
    let text := TypeExpr.primitive "string"
    let integer := TypeExpr.primitive "integer"
    let follow : List Key → Declaration → Step TypeExpr := fun _ _ => return .anything
    nullableVariants ≠ [] ∧
      Leads (translateNode default follow [] default (.union default .anyOf nullableVariants))
        ({}, {}) (.unionOf [text.optional, integer, text]) ({}, {}) ∧
      TranslateInTurn default follow [] default nullableVariants ({}, {})
        [text.optional, integer, text, integer] ({}, {}) ∧
      ∀ {Value : Type} (reading : Interpretation Value),
        reading.admitted (.unionOf [text.optional, integer, text]) =
          ⋃ variant ∈ [text.optional, integer, text, integer], reading.admitted variant := by
  intro text integer follow
  have nonempty : nullableVariants ≠ [] := by simp [nullableVariants]
  have leads : Leads (translateNode default follow [] default
      (.union default .anyOf nullableVariants)) ({}, {})
      (.unionOf [text.optional, integer, text]) ({}, {}) := by rfl
  have inTurn : TranslateInTurn default follow [] default nullableVariants ({}, {})
      [text.optional, integer, text, integer] ({}, {}) :=
    leads_translateNodes.mp rfl
  exact ⟨nonempty, leads, inTurn, fun reading =>
    (admitted_of_union default .anyOf nonempty ({}, {}) ({}, {})).2 _ _ leads inTurn reading⟩

end Analysis

end Typeloom
