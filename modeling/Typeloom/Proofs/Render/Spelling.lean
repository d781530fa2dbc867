import Typeloom.Proofs.Model.Formed
import Typeloom.Render.Python

/-!
# Names in the spelling of fields

The spelling of a well-formed type writes the names of the classes and enums that the type refers
to, in their order, and the value of a field writes no name that its type does not.
-/

namespace Typeloom

namespace Python

namespace Part

theorem modelNames_append (left right : List Part) :
    modelNames (left ++ right) = modelNames left ++ modelNames right :=
  List.filterMap_append

theorem modelNames_plain (text : String) (parts : List Part) :
    modelNames (.plain text :: parts) = modelNames parts :=
  rfl

theorem modelNames_intercalate (separator : String) (texts : List (List Part)) :
    modelNames ([.plain separator].intercalate texts) = texts.flatMap modelNames := by
  induction texts with
  | nil => rfl
  | cons first rest ih =>
      cases rest with
      | nil => simp [List.intercalate]
      | cons second rest =>
          rw [List.intercalate_cons_cons, modelNames_append, modelNames_append, ih,
            modelNames_plain, List.flatMap_cons]
          exact congrArg (· ++ _) (List.append_nil _)

end Part

variable (outline : Outline)

/-! ## Types -/

theorem modelNames_between (before after : String) (type : TypeText) :
    Part.modelNames (type.between before after).parts = Part.modelNames type.parts := by
  rw [TypeText.between, List.cons_append, Part.modelNames_plain, Part.modelNames_append]
  exact List.append_nil _

theorem modelNames_join (separator : String) (types : List TypeText) :
    Part.modelNames (TypeText.join separator types).parts =
      types.flatMap fun type => Part.modelNames type.parts := by
  rw [TypeText.join, Part.modelNames_intercalate, List.flatMap_map]

theorem exists_typeTexts {types : List TypeExpr}
    (spelled : ∀ type ∈ types, ∃ text, typeText outline type = .ok text ∧
      Part.modelNames text.parts = type.referencedNames) :
    ∃ texts, typeTexts outline types = .ok texts ∧
      (texts.flatMap fun text => Part.modelNames text.parts) =
        TypeExpr.referencedNamesOfAll types := by
  induction types with
  | nil => exact ⟨[], by rw [typeTexts], by rw [TypeExpr.referencedNamesOfAll]; rfl⟩
  | cons first rest ih =>
      obtain ⟨text, isText, names⟩ := spelled first (by simp)
      obtain ⟨texts, areTexts, allNames⟩ :=
        ih fun type occurs => spelled type (List.mem_cons_of_mem first occurs)
      refine ⟨text :: texts, ?_, ?_⟩
      · rw [typeTexts, isText, areTexts]
        rfl
      · rw [List.flatMap_cons, names, allNames, TypeExpr.referencedNamesOfAll]

/-- A well-formed type has a spelling, in which the names of the types that it refers to are
written. -/
theorem exists_typeText {type : TypeExpr} (formed : type.Formed) :
    ∃ text, typeText outline type = .ok text ∧
      Part.modelNames text.parts = type.referencedNames := by
  induction formed with
  | @leaf kind name constant isLeaf =>
      rw [TypeExpr.referencedNames, TypeExpr.referencedNamesOfAll]
      cases kind with
      | primitive =>
          rw [typeText]
          cases primitiveType? name with
          | none => exact ⟨.any, rfl, rfl⟩
          | some text => exact ⟨.plain text, rfl, rfl⟩
      | classRef => exact ⟨_, by rw [typeText], rfl⟩
      | enumRef => exact ⟨_, by rw [typeText], rfl⟩
      | literal => exact ⟨_, by rw [typeText], rfl⟩
      | any => exact ⟨_, by rw [typeText], rfl⟩
      | array | tuple | union | optional => simp at isLeaf
  | @single kind name argument constant isSingle formed ih =>
      obtain ⟨text, isText, names⟩ := ih
      rw [TypeExpr.referencedNames, TypeExpr.referencedNamesOfAll, TypeExpr.referencedNamesOfAll]
      cases kind with
      | array =>
          refine ⟨text.between "list[" "]", by rw [typeText, isText]; rfl, ?_⟩
          simp [modelNames_between, names]
      | optional =>
          refine ⟨text.between "" " | None", by rw [typeText, isText]; rfl, ?_⟩
          simp [modelNames_between, names]
      | _ => simp at isSingle
  | @several kind name arguments constant isSeveral formed ih =>
      obtain ⟨texts, areTexts, names⟩ := exists_typeTexts outline ih
      rw [TypeExpr.referencedNames]
      cases kind with
      | tuple =>
          cases arguments with
          | nil =>
              refine ⟨.plain "tuple", by rw [typeText], ?_⟩
              rw [TypeExpr.referencedNamesOfAll]
              rfl
          | cons first rest =>
              refine ⟨(TypeText.join ", " texts).between "tuple[" "]", ?_, ?_⟩
              · rw [typeText, areTexts]
                rfl
              · simp [modelNames_between, modelNames_join, names]
      | union =>
          refine ⟨TypeText.join " | " texts, by rw [typeText, areTexts]; rfl, ?_⟩
          simp [modelNames_join, names]
      | _ => simp at isSeveral

/-! ## Values -/

theorem referencedNames_withoutOptional (type : TypeExpr) :
    type.withoutOptional.referencedNames ⊆ type.referencedNames := by
  obtain ⟨kind, name, arguments, constant⟩ := type
  unfold TypeExpr.withoutOptional
  dsimp only
  split
  · rw [TypeExpr.referencedNames, TypeExpr.referencedNamesOfAll]
    intro other occurs
    exact List.mem_append_right _ (List.mem_append_left _ occurs)
  · exact List.Subset.refl _

theorem name_mem_referencedNames {type : TypeExpr} (isEnum : type.kind = .enumRef) :
    type.name ∈ type.referencedNames := by
  obtain ⟨kind, name, arguments, constant⟩ := type
  cases isEnum
  simp [TypeExpr.referencedNames]

theorem modelNames_fieldDefault (field : FieldDefinition) :
    Part.modelNames ((fieldDefault outline field).1.getD []) ⊆ field.type.referencedNames := by
  unfold fieldDefault
  split
  · split <;> exact List.nil_subset _
  · dsimp only
    split
    · rename_i constructs
      have isNamed : field.type.withoutOptional.name ∈ field.type.referencedNames :=
        referencedNames_withoutOptional _ (name_mem_referencedNames constructs.1)
      exact fun name occurs => List.mem_singleton.mp occurs ▸ isNamed
    · exact List.nil_subset _

/-- Naming the field function around a value adds no name of a type. -/
theorem modelNames_fieldValue (name : String) (value : Option (List Part)) (needsFactory : Bool) :
    Part.modelNames ((fieldValue name value needsFactory).1.getD []) =
      Part.modelNames (value.getD []) := by
  unfold fieldValue
  dsimp only
  split
  · rfl
  · rw [Option.getD_some, List.cons_append, Part.modelNames_plain, Part.modelNames_append,
      Part.modelNames_intercalate, List.flatMap_append]
    have noMetadata (renamed : Bool) (text : String) :
        (if renamed = true then [[Part.plain text]] else []).flatMap Part.modelNames = [] := by
      cases renamed <;> rfl
    rw [noMetadata]
    cases value with
    | none => rfl
    | some parts =>
        have nothing : Part.modelNames [] = [] := rfl
        cases needsFactory <;> simp [Part.modelNames_plain, nothing]

/-! ## Declarations -/

/-- A field with a well-formed type has a declaration.  The names written in its type are those
that the type refers to, and the names written in its value are among them. -/
theorem exists_declareField {field : FieldDefinition} (formed : field.type.Formed) :
    ∃ declared, declareField outline field = .ok declared ∧
      declared.typeNames = field.type.referencedNames ∧
      declared.valueNames ⊆ field.type.referencedNames := by
  obtain ⟨text, isText, names⟩ := exists_typeText outline formed
  have declares : declareField outline field = .ok
      { name := Naming.attributeName field.name, type := text
        value := (fieldValue field.name (fieldDefault outline field).1
          (fieldDefault outline field).2).1
        description := field.description
        usesField := (fieldValue field.name (fieldDefault outline field).1
          (fieldDefault outline field).2).2 } := by
    rw [declareField, isText]
    rfl
  refine ⟨_, declares, names, ?_⟩
  rw [Declared.valueNames, modelNames_fieldValue]
  exact modelNames_fieldDefault outline field

theorem mem_orderedFields {config : Config} {fields : List FieldDefinition}
    {field : FieldDefinition} : field ∈ orderedFields config fields ↔ field ∈ fields := by
  unfold orderedFields
  split
  · rfl
  · by_cases mandatory : isMandatory field = true <;> simp [mandatory]

/-- Fields with well-formed types have declarations in every order.  The names written in their
types are those that the types refer to, and the names written in their values are among them. -/
theorem exists_declareFields (config : Config) {fields : List FieldDefinition}
    (formed : ∀ field ∈ fields, field.type.Formed) :
    ∃ declared, (orderedFields config fields).mapM (declareField outline) = .ok declared ∧
      (∀ name, (∃ field ∈ declared, name ∈ field.typeNames) ↔
        ∃ field ∈ fields, name ∈ field.type.referencedNames) ∧
      ∀ name, (∃ field ∈ declared, name ∈ field.valueNames) →
        ∃ field ∈ fields, name ∈ field.type.referencedNames := by
  have declares (field : FieldDefinition) (occurs : field ∈ orderedFields config fields) :=
    exists_declareField outline (formed field (mem_orderedFields.mp occurs))
  obtain ⟨declared, areDeclared⟩ := exists_mapM_eq_ok_iff.mpr fun field occurs =>
    (declares field occurs).imp fun _ properties => properties.1
  -- Each declaration is that of a field, and each field has one.
  have ofField {written : Declared} (isDeclared : written ∈ declared) : ∃ field ∈ fields,
      written.typeNames = field.type.referencedNames ∧
        written.valueNames ⊆ field.type.referencedNames := by
    obtain ⟨field, occurs, yields⟩ := (mem_of_mapM_eq_ok areDeclared).mp isDeclared
    obtain ⟨same, yieldsSame, names⟩ := declares field occurs
    obtain rfl : written = same := Except.ok.inj (yields.symm.trans yieldsSame)
    exact ⟨field, mem_orderedFields.mp occurs, names⟩
  refine ⟨declared, areDeclared, fun name => ⟨?_, ?_⟩, ?_⟩
  · rintro ⟨written, isDeclared, occurs⟩
    obtain ⟨field, isField, typeNames, -⟩ := ofField isDeclared
    exact ⟨field, isField, typeNames ▸ occurs⟩
  · rintro ⟨field, isField, occurs⟩
    have ordered : field ∈ orderedFields config fields := mem_orderedFields.mpr isField
    obtain ⟨written, yields, typeNames, -⟩ := declares field ordered
    exact ⟨written, (mem_of_mapM_eq_ok areDeclared).mpr ⟨field, ordered, yields⟩,
      typeNames ▸ occurs⟩
  · rintro name ⟨written, isDeclared, occurs⟩
    obtain ⟨field, isField, -, valueNames⟩ := ofField isDeclared
    exact ⟨field, isField, valueNames occurs⟩

end Python

end Typeloom
