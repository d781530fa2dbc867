import Mathlib.Data.Set.Function
import Typeloom.Generate.Code
import Typeloom.Proofs.Generate.Assignment

/-!
# Outlines of renamed models

A replacement gives a class or enum another generated name, and renaming gives it another name in
the model.  If the classes and enums keep different names, the outline of a model with replacements
and that of the renamed model without them differ in nothing but the model names of their entries,
and both lead to the same files.
-/

namespace Typeloom

/-!
## Renaming classes and enums

The classes and enums of a model may be given other names.  A renaming changes the names that
definitions bear and those by which types and bases refer to them, and nothing else.
-/

namespace TypeExpr

mutual

/-- A type in which other names stand for the classes and enums. -/
def rename (naming : String → String) : TypeExpr → TypeExpr
  | ⟨kind, name, arguments, constant⟩ =>
      ⟨kind, if kind = .classRef ∨ kind = .enumRef then naming name else name,
        renameAll naming arguments, constant⟩

def renameAll (naming : String → String) : List TypeExpr → List TypeExpr
  | [] => []
  | type :: rest => rename naming type :: renameAll naming rest

end

@[simp]
theorem kind_rename (naming : String → String) (type : TypeExpr) :
    (type.rename naming).kind = type.kind := by
  cases type
  rw [rename]

/-- What refers to an enum does so by the new name of the enum. -/
theorem name_rename {naming : String → String} {type : TypeExpr} (isEnum : type.kind = .enumRef) :
    (type.rename naming).name = naming type.name := by
  cases type
  cases isEnum
  rw [rename, if_pos (Or.inr rfl)]

/-- The name of a primitive type is not that of a class or enum. -/
theorem name_rename_of_primitive {naming : String → String} {type : TypeExpr}
    (isPrimitive : type.kind = .primitive) : (type.rename naming).name = type.name := by
  cases type
  cases isPrimitive
  rw [rename, if_neg (by simp)]

theorem withoutOptional_rename (naming : String → String) (type : TypeExpr) :
    (type.rename naming).withoutOptional = type.withoutOptional.rename naming := by
  obtain ⟨kind, name, arguments, constant⟩ := type
  rw [rename]
  cases arguments with
  | nil => cases kind <;> simp [withoutOptional, rename, renameAll]
  | cons first rest => cases kind <;> simp [withoutOptional, rename, renameAll]

mutual

theorem referencedNames_rename (naming : String → String) (type : TypeExpr) :
    (type.rename naming).referencedNames = type.referencedNames.map naming := by
  obtain ⟨kind, name, arguments, constant⟩ := type
  rw [rename, referencedNames, referencedNames, referencedNamesOfAll_rename]
  by_cases isNamed : kind = .classRef ∨ kind = .enumRef
  · simp [isNamed]
  · simp [isNamed]

theorem referencedNamesOfAll_rename (naming : String → String) (types : List TypeExpr) :
    referencedNamesOfAll (renameAll naming types) =
      (referencedNamesOfAll types).map naming := by
  cases types with
  | nil => rw [renameAll, referencedNamesOfAll, List.map_nil]
  | cons first rest =>
      rw [renameAll, referencedNamesOfAll, referencedNamesOfAll, referencedNames_rename,
        referencedNamesOfAll_rename, List.map_append]

end

end TypeExpr

def FieldDefinition.rename (naming : String → String) (field : FieldDefinition) :
    FieldDefinition :=
  { field with type := field.type.rename naming }

def ClassDefinition.rename (naming : String → String) (definition : ClassDefinition) :
    ClassDefinition :=
  { definition with
    name := naming definition.name
    base := definition.base.map naming
    fields := definition.fields.map (FieldDefinition.rename naming) }

def EnumDefinition.rename (naming : String → String) (definition : EnumDefinition) :
    EnumDefinition :=
  { definition with name := naming definition.name }

def TypeDefinition.rename (naming : String → String) : TypeDefinition → TypeDefinition
  | .ofClass definition => .ofClass (definition.rename naming)
  | .ofEnum definition => .ofEnum (definition.rename naming)

namespace TypeDefinition

variable (naming : String → String) (definition : TypeDefinition)

@[simp]
theorem name_rename : (definition.rename naming).name = naming definition.name := by
  cases definition <;> rfl

@[simp]
theorem package_rename : (definition.rename naming).package = definition.package := by
  cases definition <;> rfl

@[simp]
theorem source_rename : (definition.rename naming).source = definition.source := by
  cases definition <;> rfl

end TypeDefinition

/-- A model in which the classes and enums have other names. -/
def Model.rename (naming : String → String) (model : Model) : Model where
  classes := model.classes.map (ClassDefinition.rename naming)
  enums := model.enums.map (EnumDefinition.rename naming)

def TypeOutline.rename (naming : String → String) (entry : TypeOutline) : TypeOutline :=
  { entry with target := entry.target.rename naming }

@[simp]
theorem TypeOutline.modelName_rename (naming : String → String) (entry : TypeOutline) :
    (entry.rename naming).modelName = naming entry.modelName :=
  TypeDefinition.name_rename naming entry.target

@[simp]
theorem TypeOutline.isClass_rename (naming : String → String) (entry : TypeOutline) :
    (entry.rename naming).isClass = entry.isClass := by
  obtain ⟨target, _, _, _, _⟩ := entry
  cases target <;> rfl

namespace Outline

/-- An outline of classes and enums that have other names in the model. -/
def rename (naming : String → String) (outline : Outline) : Outline where
  entries := outline.entries.map (TypeOutline.rename naming)

/-- Whether there is an entry with a model name. -/
def Knows (outline : Outline) (name : String) : Prop :=
  ∃ entry ∈ outline.entries, entry.modelName = name

/-- Whether entries with different model names still have different ones when they are renamed. -/
def IsSeparatedBy (outline : Outline) (naming : String → String) : Prop :=
  Set.InjOn naming {name | outline.Knows name}

section Rename

variable {outline : Outline} {naming : String → String}

theorem resolve?_rename (separated : outline.IsSeparatedBy naming) {name : String}
    (known : outline.Knows name) :
    (outline.rename naming).resolve? (naming name) =
      (outline.resolve? name).map (TypeOutline.rename naming) := by
  have sameTest : ∀ entry ∈ outline.entries.reverse,
      decide ((entry.rename naming).modelName = naming name) =
        decide (entry.modelName = name) := by
    intro entry occurs
    have entryKnown : outline.Knows entry.modelName := ⟨entry, List.mem_reverse.mp occurs, rfl⟩
    rw [TypeOutline.modelName_rename, decide_eq_decide]
    exact separated.eq_iff entryKnown known
  rw [resolve?, resolve?, rename, ← List.map_reverse, List.find?_map]
  refine congrArg (Option.map _) ?_
  generalize outline.entries.reverse = entries at sameTest
  induction entries with
  | nil => rfl
  | cons entry rest ih =>
      obtain ⟨first, others⟩ := List.forall_mem_cons.mp sameTest
      rw [List.find?_cons, List.find?_cons, Function.comp_apply, first, ih others]

theorem typeName_rename (separated : outline.IsSeparatedBy naming) {name : String}
    (known : outline.Knows name) :
    (outline.rename naming).typeName (naming name) = outline.typeName name := by
  rw [typeName, typeName, resolve?_rename separated known]
  obtain ⟨entry, isEntry, rfl⟩ := known
  obtain ⟨found, isFound⟩ := exists_resolve? isEntry
  rw [isFound]
  rfl

theorem classes_rename (outline : Outline) (naming : String → String) :
    (outline.rename naming).classes = outline.classes.map (TypeOutline.rename naming) := by
  rw [classes, rename, List.filter_map]
  simp [classes, Function.comp_def]

theorem enums_rename (outline : Outline) (naming : String → String) :
    (outline.rename naming).enums = outline.enums.map (TypeOutline.rename naming) := by
  rw [enums, rename, List.filter_map]
  simp [enums, Function.comp_def]

theorem packages_rename (outline : Outline) (naming : String → String) :
    (outline.rename naming).packages = outline.packages := by
  rw [packages, classes_rename, enums_rename, ← List.map_append, List.map_map]
  rfl

theorem classesOf_rename (outline : Outline) (naming : String → String) (package : Json) :
    (outline.rename naming).classesOf package =
      (outline.classesOf package).map (TypeOutline.rename naming) := by
  rw [classesOf, classes_rename, List.filter_map]
  rfl

theorem enumsOf_rename (outline : Outline) (naming : String → String) (package : Json) :
    (outline.rename naming).enumsOf package =
      (outline.enumsOf package).map (TypeOutline.rename naming) := by
  rw [enumsOf, enums_rename, List.filter_map]
  rfl

/-- Freezing the classes goes together with renaming them. -/
theorem mapClasses_rename (outline : Outline) (naming : String → String)
    {change : TypeOutline → TypeOutline}
    (commutes : ∀ entry, change (entry.rename naming) = (change entry).rename naming) :
    (outline.rename naming).mapClasses change = (outline.mapClasses change).rename naming := by
  simp only [mapClasses, rename, List.map_map]
  refine congrArg Outline.mk (List.map_congr_left fun entry _ => ?_)
  simp only [Function.comp_apply, TypeOutline.isClass_rename, commutes]
  split <;> rfl

end Rename

end Outline

/-! ## Files -/

/-- Renaming keeps the entries of a kind and a package, and their numbers. -/
theorem filter_zipIdx_rename (entries : List TypeOutline) (naming : String → String)
    (classes : Bool) (package : Json) :
    ((entries.map (TypeOutline.rename naming)).zipIdx.filter fun pair =>
        pair.1.isClass == classes && pair.1.package.equal package) =
      (entries.zipIdx.filter fun pair =>
        pair.1.isClass == classes && pair.1.package.equal package).map
          (Prod.map (TypeOutline.rename naming) id) := by
  rw [List.zipIdx_map, List.filter_map]
  refine congrArg (List.map _) (List.filter_congr fun pair _ => ?_)
  rw [Function.comp_apply, Prod.map_fst, TypeOutline.isClass_rename]
  rfl

theorem TargetLanguage.files_rename (language : TargetLanguage) (outline : Outline)
    (naming : String → String) : language.files (outline.rename naming) = language.files outline := by
  cases language with
  | python =>
      have sameFiles (package : Json) : Python.filesOf (outline.rename naming) package =
          Python.filesOf outline package := by
        simp only [Python.filesOf, Python.numberedEntries, Outline.rename]
        rw [filter_zipIdx_rename, filter_zipIdx_rename, List.map_map, List.map_map]
        rfl
      rw [TargetLanguage.files, Python.files, Python.files, Outline.packages_rename,
        funext sameFiles]
  | csharp =>
      have sameFiles (package : Json) : CSharp.filesOf (outline.rename naming) package =
          CSharp.filesOf outline package := by
        simp only [CSharp.filesOf, Outline.rename]
        rw [filter_zipIdx_rename, filter_zipIdx_rename, ← List.map_append, List.map_map]
        rfl
      rw [TargetLanguage.files, CSharp.files, CSharp.files, Outline.packages_rename,
        funext sameFiles]

/-! ## Naming -/

/-- The name that replacements put for a name of the model, if it is a text. -/
def Replacements.naming (replacements : Replacements) (name : String) : String :=
  (replacements.nameFor name).text?.getD name

theorem Replacements.naming_eq {replacements : Replacements} {name generated : String}
    (isText : (replacements.nameFor name).textOf = .ok generated) :
    replacements.naming name = generated := by
  unfold naming
  cases value : replacements.nameFor name <;> rw [value] at isText <;> cases isText
  rfl

namespace GeneratedCode

open Reporting

variable {replacements : Replacements} {channel after : Channel}

theorem onChannel_watching {α : Type} {action : Reporting α} {value : α}
    (returns : onChannel action channel = (.ok value, after)) :
    onChannel (watching action) channel =
      (.ok (value, decide (channel.errors < after.errors)), after) := by
  change onChannel (action >>= fun value => get >>= fun last =>
    pure (value, decide (channel.errors < last.errors))) channel = _
  rw [onChannel_bind, returns]
  rfl

/-- A definition that is added under a replacement is added to the renamed outline under its new
name. -/
theorem addDefinition_rename {definition : TypeDefinition} {state next : Outline × List TakenName}
    (returns : onChannel (addDefinition replacements state definition) channel =
      (.ok next, after)) :
    onChannel (addDefinition [] (state.1.rename replacements.naming, state.2)
        (definition.rename replacements.naming)) channel =
      (.ok (next.1.rename replacements.naming, next.2), after) := by
  obtain ⟨name, isKey, isText, -⟩ := addDefinition_inversion returns
  have isNamed : (Replacements.nameFor [] (replacements.naming definition.name)).textOf =
      .ok name := by
    rw [Replacements.naming_eq isText]
    rfl
  have collision (owner : String) :
      reportCollision name (definition.rename replacements.naming) owner =
        reportCollision name definition owner := by
    simp [reportCollision]
  have added : (state.1.rename replacements.naming).add
      { target := definition.rename replacements.naming, name, package := definition.package } =
        (state.1.add { target := definition, name, package := definition.package }).rename
          replacements.naming := by
    simp [Outline.add, Outline.rename, TypeOutline.rename]
  simp only [addDefinition, TypeDefinition.name_rename, TypeDefinition.package_rename,
    TypeDefinition.source_rename, isNamed, isText, isKey, onChannel_bind,
    onChannel_ofExcept_ok] at returns ⊢
  cases owner : ownerOf? state.2 definition.package (Unicode.lower name) with
  | none =>
      simp only [owner] at returns ⊢
      cases returns
      rw [added]
      rfl
  | some source =>
      simp only [owner, collision] at returns ⊢
      cases returns
      rw [added]
      rfl

theorem addDefinitions_rename {definitions : List TypeDefinition}
    {state next : Outline × List TakenName}
    (returns : onChannel (definitions.foldlM (addDefinition replacements) state) channel =
      (.ok next, after)) :
    onChannel ((definitions.map (TypeDefinition.rename replacements.naming)).foldlM
        (addDefinition []) (state.1.rename replacements.naming, state.2)) channel =
      (.ok (next.1.rename replacements.naming, next.2), after) := by
  induction definitions generalizing state channel with
  | nil =>
      cases returns
      rfl
  | cons definition rest ih =>
      rw [List.foldlM_cons] at returns
      obtain ⟨middle, between, first, later⟩ := exists_of_onChannel_bind returns
      rw [List.map_cons, List.foldlM_cons, onChannel_bind, addDefinition_rename first]
      exact ih later

/-- Settings under which no name is replaced. -/
def withoutReplacements (settings : GenerationSettings) : GenerationSettings :=
  { settings with replacements := [] }

theorem outlineOf_rename {settings : GenerationSettings} {model : Model} {outline : Outline}
    (unordered : settings.config.orderClasses.isTruthy = false)
    (returns : onChannel (outlineOf settings model) channel = (.ok outline, after)) :
    onChannel (outlineOf (withoutReplacements settings)
        (model.rename settings.replacements.naming)) channel =
      (.ok (outline.rename settings.replacements.naming), after) := by
  obtain ⟨classes, _, ordered, rest⟩ := exists_of_onChannel_bind returns
  obtain ⟨isOrdered, rfl⟩ := of_onChannel_ofExcept ordered
  obtain ⟨final, _, adds, last⟩ := exists_of_onChannel_bind rest
  cases last
  have keepsOrder (definitions : List ClassDefinition) :
      orderedClasses settings.config definitions = .ok definitions := by
    rw [orderedClasses, unordered]
    rfl
  obtain rfl := Except.ok.inj ((keepsOrder _).symm.trans isOrdered)
  have definitions : (model.rename settings.replacements.naming).classes.map
        TypeDefinition.ofClass ++
      (model.rename settings.replacements.naming).enums.map TypeDefinition.ofEnum =
        (model.classes.map TypeDefinition.ofClass ++
          model.enums.map TypeDefinition.ofEnum).map
            (TypeDefinition.rename settings.replacements.naming) := by
    simp [Model.rename, TypeDefinition.rename, Function.comp_def]
  have renamed := addDefinitions_rename adds
  rw [outlineOf, withoutReplacements, keepsOrder, onChannel_bind, onChannel_ofExcept_ok]
  dsimp only
  rw [definitions, onChannel_bind]
  have begins : Outline.rename settings.replacements.naming {} = {} := rfl
  rw [begins] at renamed
  rw [renamed]
  rfl

theorem ofModel_rename {settings : GenerationSettings} {model : Model} {code : GeneratedCode}
    (unordered : settings.config.orderClasses.isTruthy = false)
    (returns : onChannel (ofModel settings model) channel = (.ok (some code), after)) :
    onChannel (ofModel (withoutReplacements settings)
        (model.rename settings.replacements.naming)) channel =
      (.ok (some { code with outline := code.outline.rename settings.replacements.naming }),
        after) := by
  obtain ⟨outline, makes, isCode, noError⟩ := exists_of_onChannel_unless returns fun _ _ => rfl
  cases isCode
  have noError : ¬channel.errors < after.errors := Nat.not_lt.mpr noError
  rw [ofModel, onChannel_bind, onChannel_watching (outlineOf_rename unordered makes),
    decide_eq_false noError]
  simp only [withoutReplacements, TargetLanguage.files_rename]
  rfl

end GeneratedCode

end Typeloom
