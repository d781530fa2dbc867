import Typeloom.Proofs.Render.Renaming

/-!
# Replacing names is renaming

Generating code from a model with replacements gives the same files and the same signatures as
renaming the model and replacing nothing, whether or not the classes are frozen.  This holds if the
replacements give different names to different classes and enums and the classes are not put into a
preferred order, which is one of model names.
-/

namespace Typeloom

/-- Whether the classes of a model refer only to classes and enums of the model. -/
structure Model.Closed (model : Model) : Prop where
  fields : ∀ definition ∈ model.classes, ∀ field ∈ definition.fields,
    ∀ name ∈ field.type.referencedNames, model.Defines name
  bases : ∀ definition ∈ model.classes, ∀ name ∈ definition.base, model.Defines name

/-- The paths of the files of generated code and their texts. -/
def GeneratedCode.units (settings : GenerationSettings) (code : GeneratedCode) :
    List (Except Fault String × Except Fault String) :=
  code.files.map fun file => (file.path, code.render settings file)

/-! ## Outlines of a model -/

section Targets

variable {outline : Outline} {model : Model}

theorem Outline.knows_iff_of_targets
    (targets : (outline.entries.map TypeOutline.target).Perm model.definitions) {name : String} :
    outline.Knows name ↔ model.Defines name := by
  constructor
  · rintro ⟨entry, isEntry, isName⟩
    exact ⟨entry.target, targets.mem_iff.mp (List.mem_map_of_mem isEntry), isName⟩
  · exact Outline.exists_entry_of_defines targets

/-- An outline of all definitions of a closed model has entries for whatever they refer to. -/
theorem Model.Closed.closed_outline (closed : model.Closed)
    (targets : (outline.entries.map TypeOutline.target).Perm model.definitions) :
    outline.Closed := by
  intro entry isEntry definition isTarget
  have isDefinition := targets.mem_iff.mp (List.mem_map_of_mem isEntry)
  have isClass : definition ∈ model.classes := by
    simpa [isTarget, Model.definitions] using isDefinition
  constructor
  · exact fun field isField name occurs =>
      (Outline.knows_iff_of_targets targets).mpr (closed.fields definition isClass field isField
        name occurs)
  · exact fun name isBase =>
      (Outline.knows_iff_of_targets targets).mpr (closed.bases definition isClass name isBase)

end Targets

namespace GeneratedCode

open Reporting

variable {settings : GenerationSettings} {extensions : List Extension} {model : Model}
  {channel after : Channel}

/-! ## Code of a renamed model -/

/-- Freezing classes succeeds on a renamed outline as it does on the outline. -/
theorem applyAll_rename {outline : Outline} {result? : Option Outline} (naming : String → String)
    (freeze : ∀ extension ∈ extensions, extension = .frozenClasses)
    (returns : onChannel (Extension.applyAll extensions outline) channel = (.ok result?, after)) :
    onChannel (Extension.applyAll extensions (outline.rename naming)) channel =
      (.ok (result?.map (Outline.rename naming)), after) := by
  induction extensions generalizing outline with
  | nil =>
      cases returns
      rfl
  | cons extension rest ih =>
      obtain ⟨rfl, restFreeze⟩ := List.forall_mem_cons.mp freeze
      have frozen : ((outline.rename naming).mapClasses fun entry =>
          { entry with frozen := true }) =
            (outline.mapClasses fun entry => { entry with frozen := true }).rename naming :=
        outline.mapClasses_rename naming fun _ => rfl
      have step (outline : Outline) :
          onChannel (Extension.applyAll (.frozenClasses :: rest) outline) channel =
            onChannel (Extension.applyAll rest
              (outline.mapClasses fun entry => { entry with frozen := true })) channel := rfl
      rw [step] at returns ⊢
      rw [frozen]
      exact ih restFreeze returns

/-- What is generated from a model with replacements is generated from the renamed model without
them, but for the model names in the outline. -/
theorem generate_rename {code : GeneratedCode}
    (unordered : settings.config.orderClasses.isTruthy = false)
    (freeze : ∀ extension ∈ extensions, extension = .frozenClasses)
    (returns : onChannel (generate settings extensions model) channel = (.ok (some code), after)) :
    (code.outline.entries.map TypeOutline.target).Perm model.definitions ∧
      onChannel (generate (withoutReplacements settings) extensions
          (model.rename settings.replacements.naming)) channel =
        (.ok (some { code with outline := code.outline.rename settings.replacements.naming }),
          after) := by
  have keep (extension : Extension) (occurs : extension ∈ extensions) : extension.KeepsTypes :=
    freeze extension occurs ▸ Extension.keepsNames_frozenClasses.keepsTypes
  refine ⟨targets_of_generate keep returns, ?_⟩
  obtain ⟨code?, between, makes, rest⟩ := exists_of_onChannel_bind returns
  cases code? with
  | none => cases rest
  | some made =>
      obtain ⟨outline?, _, applies, last⟩ := exists_of_onChannel_bind rest
      cases outline? with
      | none => cases last
      | some result =>
          obtain ⟨_, ofAll, rfl, noError⟩ := exists_of_onChannel_unless applies fun _ _ => rfl
          obtain ⟨outline, -, isMade, -⟩ := exists_of_onChannel_unless makes fun _ _ => rfl
          cases isMade
          cases last
          have noError : ¬between.errors < after.errors := Nat.not_lt.mpr noError
          rw [generate, onChannel_bind, ofModel_rename unordered makes]
          dsimp only
          rw [onChannel_bind, Extension.outlineAfter, onChannel_bind,
            onChannel_watching (applyAll_rename _ freeze ofAll), decide_eq_false noError]
          rfl

/-- If replacements give different names to different classes and enums of a closed model, then
whatever is generated with them is generated from the renamed model without them: the same paths,
the same texts and the same signatures. -/
theorem units_and_signature_of_generate_rename {code : GeneratedCode} (closed : model.Closed)
    (separated : Set.InjOn settings.replacements.naming {name | model.Defines name})
    (unordered : settings.config.orderClasses.isTruthy = false)
    (freeze : ∀ extension ∈ extensions, extension = .frozenClasses)
    (returns : onChannel (generate settings extensions model) channel = (.ok (some code), after)) :
    ∃ renamed, onChannel (generate (withoutReplacements settings) extensions
          (model.rename settings.replacements.naming)) channel = (.ok (some renamed), after) ∧
      renamed.units (withoutReplacements settings) = code.units settings ∧
      Signature.dump renamed.outline = Signature.dump code.outline := by
  obtain ⟨targets, ofRenamed⟩ := generate_rename unordered freeze returns
  have separated : code.outline.IsSeparatedBy settings.replacements.naming :=
    separated.mono fun _ known => (Outline.knows_iff_of_targets targets).mp known
  have closed := closed.closed_outline targets
  refine ⟨_, ofRenamed, ?_, ?_⟩
  · exact List.map_congr_left fun file _ => congrArg (Prod.mk file.path)
      (settings.language.render_rename separated closed settings.config file)
  · rw [Signature.dump, Signature.dump, Signature.pieces_rename separated closed]

/-- A class of flower beds, the class of plants from which it is derived, and an enum for the
default value of a property. -/
def garden : Model where
  classes := [
    { name := "Plant", package := .text "garden", base := none
      fields := [
        { name := "size", type := .memberOf "Size", required := false
          default? := some (.text "big"), description := .null }]
      description := .null, source := "file:///garden#/definitions/Plant" },
    { name := "Bed", package := .text "garden", base := some "Plant"
      fields := [
        { name := "plants", type := .listOf (.instanceOf "Plant"), required := true
          default? := none, description := .null }]
      description := .null, source := "file:///garden#/definitions/Bed" }]
  enums := [
    { name := "Size", package := .text "garden", valueType := "string"
      members := [(.text "BIG", .text "big")], description := .null
      source := "file:///garden#/definitions/Size" }]

theorem mem_of_garden_defines {name : String} (defined : garden.Defines name) :
    name ∈ ["Plant", "Bed", "Size"] := by
  obtain ⟨definition, isDefinition, rfl⟩ := defined
  exact List.mem_map_of_mem isDefinition

theorem closed_garden : garden.Closed where
  fields := by
    have inDefinitions : ∀ definition ∈ garden.classes, ∀ field ∈ definition.fields,
        ∀ name ∈ field.type.referencedNames, name ∈ garden.definitions.map TypeDefinition.name := by
      decide +kernel
    exact fun definition isClass field isField name occurs =>
      List.mem_map.mp (inDefinitions definition isClass field isField name occurs)
  bases := by
    have inDefinitions : ∀ definition ∈ garden.classes, ∀ name ∈ definition.base.toList,
        name ∈ garden.definitions.map TypeDefinition.name := by
      decide +kernel
    exact fun definition isClass name isBase =>
      List.mem_map.mp (inDefinitions definition isClass name (Option.mem_toList.mpr isBase))

/-- Plants are generated as flowers, and the enum gets the name that plants have in the model. -/
theorem units_and_signature_garden : ∃ settings code after renamed,
    settings.language = .csharp ∧
      settings.replacements = [(.text "Plant", .text "Flower"), (.text "Size", .text "Plant")] ∧
      onChannel (generate settings [.frozenClasses] garden) {} = (.ok (some code), after) ∧
      code.files.map GeneratedFile.fileName = ["Flower.cs", "Bed.cs", "Plant.cs"] ∧
      onChannel (generate (withoutReplacements settings) [.frozenClasses]
          (garden.rename settings.replacements.naming)) {} = (.ok (some renamed), after) ∧
      renamed.units (withoutReplacements settings) = code.units settings ∧
      Signature.dump renamed.outline = Signature.dump code.outline := by
  let settings : GenerationSettings :=
    { language := .csharp
      replacements := [(.text "Plant", .text "Flower"), (.text "Size", .text "Plant")] }
  have outcome : (onChannel (generate settings [.frozenClasses] garden) {}).1.toOption.join.map
      (fun code => code.files.map GeneratedFile.fileName) =
        some ["Flower.cs", "Bed.cs", "Plant.cs"] := by
    decide +kernel
  obtain ⟨code, after, generates, fileNames⟩ := exists_onChannel_eq_some outcome
  have separated : Set.InjOn settings.replacements.naming {name | garden.Defines name} := by
    have apart : ∀ name ∈ ["Plant", "Bed", "Size"], ∀ other ∈ ["Plant", "Bed", "Size"],
        settings.replacements.naming name = settings.replacements.naming other → name = other := by
      decide +kernel
    exact fun name defined other otherDefined => apart name (mem_of_garden_defines defined) other
      (mem_of_garden_defines otherDefined)
  have freeze : ∀ extension ∈ [Extension.frozenClasses], extension = .frozenClasses :=
    List.forall_mem_singleton.mpr rfl
  obtain ⟨renamed, ofRenamed, sameUnits, sameSignature⟩ :=
    units_and_signature_of_generate_rename closed_garden separated rfl freeze generates
  exact ⟨settings, code, after, renamed, rfl, rfl, generates, fileNames, ofRenamed, sameUnits,
    sameSignature⟩

end GeneratedCode

end Typeloom
