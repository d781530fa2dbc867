import Typeloom.Proofs.Render.Files
import Typeloom.Proofs.Render.Spelling
import Typeloom.Proofs.Schema.Loaded

/-!
# Imports of generated Python modules

A module of a class imports every class and enum whose name it writes, and a module of a package
imports all types of the package.  Each import leads to a file that is generated as well and holds
what is imported, because the files and the imports agree on where a type is generated.
-/

namespace Typeloom

namespace Python

/-- Whether an import in a module of a package leads to a file.  It is relative inside of a named
package and absolute otherwise. -/
def Import.LeadsTo (imported : Import) (package : Json) (file : GeneratedFile) : Prop :=
  file.fileName = imported.module ++ ".py" ∧
    match imported.origin with
    | .sibling => package.isTruthy = true ∧ file.package = package
    | .within named => named.isTruthy = true ∧ named ≠ package ∧ file.package = named
    | .top => file.package = .text ""

/-- Whether a file defines the class or enum with a model name under a generated name. -/
def Defines (code : GeneratedCode) (file : GeneratedFile) (name modelName : String) : Prop :=
  ∃ entry index, code.outline.entries[index]? = some entry ∧ file.content = .entry index ∧
    entry.name = name ∧ entry.modelName = modelName

/-- Whether an import in a module of a package leads to a generated file that defines the class or
enum with a model name under the name that is imported. -/
def Import.Provides (imported : Import) (code : GeneratedCode) (package : Json)
    (modelName : String) : Prop :=
  ∃ file ∈ code.files, imported.LeadsTo package file ∧ Defines code file imported.name modelName

/-- Whether the imports of a module provide some classes and enums, each of them once, and nothing
else. -/
structure ImportsExactly (code : GeneratedCode) (package : Json) (imports : List Import)
    (types : String → Prop) : Prop where
  once : ∀ modelName, types modelName → ∃! place : Nat, ∃ imported : Import,
    imports[place]? = some imported ∧ imported.Provides code package modelName
  only : ∀ imported ∈ imports, ∃ modelName, types modelName ∧
    imported.Provides code package modelName

theorem ImportsExactly.congr {code : GeneratedCode} {package : Json} {imports : List Import}
    {types others : String → Prop} (exactly : ImportsExactly code package imports types)
    (same : ∀ modelName, types modelName ↔ others modelName) :
    ImportsExactly code package imports others :=
  funext (fun modelName => propext (same modelName)) ▸ exactly

/-- Whether a module writes the name of a class or enum where it is needed when the module is
run: in the value of a field or as the base. -/
def ClassModule.NeedsAtOnce (module : ClassModule) (modelName : String) : Prop :=
  (∃ field ∈ module.fields, modelName ∈ field.valueNames) ∨
    ∃ part ∈ module.base, part.modelName? = some modelName

/-- Whether a module writes the name of a class or enum. -/
def ClassModule.Writes (module : ClassModule) (modelName : String) : Prop :=
  (∃ field ∈ module.fields, modelName ∈ field.typeNames) ∨ module.NeedsAtOnce modelName

/-- Whether the module of a class imports what it writes, except for the class itself, and does so
for all, and not for type checkers only, where it is needed at once. -/
structure ClassModule.Closed (module : ClassModule) (code : GeneratedCode) (package : Json)
    (own : String) : Prop where
  imports : ImportsExactly code package (module.needed ++ module.typeOnly) fun modelName =>
    module.Writes modelName ∧ modelName ≠ own
  needed : ∀ modelName, module.NeedsAtOnce modelName → modelName ≠ own →
    ∃ imported ∈ module.needed, imported.Provides code package modelName

/-- Whether the text of a file is that of a module which imports what it should. -/
def ImportsClosed (settings : GenerationSettings) (code : GeneratedCode) (file : GeneratedFile) :
    Prop :=
  match file.content with
  | .entry index => ∃ entry, code.outline.entries[index]? = some entry ∧
      ∀ definition, entry.target = .ofClass definition → ∃ module,
        classModule code.outline settings.config entry definition = .ok module ∧
        code.render settings file = module.text ∧
        module.Closed code file.package definition.name
  | .package => ∃ module, packageModule code.outline file.package = .ok module ∧
      code.render settings file = .ok module.text ∧
      ImportsExactly code file.package module.imports fun modelName =>
        ∃ entry ∈ code.outline.entries, entry.package = file.package ∧
          entry.modelName = modelName

/-! ## Where types are generated -/

/-- Whether the entries of generated code are told apart by their model names, as well as by their
packages and names, and the files are those of the entries. -/
structure Registered (code : GeneratedCode) : Prop where
  modelNames : (code.outline.entries.map TypeOutline.modelName).Nodup
  names : (code.outline.entries.map fun entry => (entry.package, entry.name)).Nodup
  texts : code.outline.HasPackageTexts
  files : ∀ file, file ∈ code.files ↔
    (∃ entry index, code.outline.entries[index]? = some entry ∧ file = fileOf entry index) ∨
    ∃ entry ∈ code.outline.entries, entry.package.isTruthy = true ∧
      file = packageFile entry.package

section Registered

variable {code : GeneratedCode} {package : Json} {target : TypeOutline}

theorem origin_importInto {text : String} (isText : target.package = .text text) :
    (importInto package target).origin =
      if text = "" then .top
      else if package = .text text then .sibling
      else .within (.text text) := by
  have named : target.package.isTruthy = true ↔ text ≠ "" := by
    simp [isText, Json.isTruthy]
  by_cases isEmpty : text = ""
  · rw [if_pos isEmpty, importInto, if_neg (mt named.mp (not_not_intro isEmpty))]
  · rw [if_neg isEmpty, importInto, if_pos (named.mpr isEmpty)]
    simp only [isText, Json.equal_text_iff]

/-- The import of a type leads to the file of the type, and to no file of another package. -/
theorem leadsTo_importInto (hasText : ∃ text, target.package = .text text) {file : GeneratedFile} :
    (importInto package target).LeadsTo package file ↔
      file.fileName = moduleName target.name ++ ".py" ∧ file.package = target.package := by
  obtain ⟨text, isText⟩ := hasText
  refine and_congr_right fun _ => ?_
  rw [origin_importInto isText, isText]
  by_cases isEmpty : text = ""
  · simp [isEmpty]
  · by_cases isSibling : package = .text text
    · simp [isEmpty, isSibling, Json.isTruthy]
    · simp [isEmpty, isSibling, Json.isTruthy, Ne.symm isSibling]

/-- The import of a type leads to the file of the type. -/
theorem Registered.provides (registered : Registered code)
    (isEntry : target ∈ code.outline.entries) :
    (importInto package target).Provides code package target.modelName := by
  obtain ⟨index, atIndex⟩ := List.mem_iff_getElem?.mp isEntry
  have leads : (importInto package target).LeadsTo package (fileOf target index) :=
    (leadsTo_importInto (registered.texts target isEntry)).mpr ⟨rfl, rfl⟩
  refine ⟨fileOf target index, ?_, leads, ?_⟩
  · exact (registered.files _).mpr (Or.inl ⟨target, index, atIndex, rfl⟩)
  · exact ⟨target, index, atIndex, rfl, rfl, rfl⟩

/-- The import of a type provides no other type: no two types have the same name in one package. -/
theorem Registered.modelName_eq (registered : Registered code)
    (isEntry : target ∈ code.outline.entries) {modelName : String}
    (provides : (importInto package target).Provides code package modelName) :
    target.modelName = modelName := by
  obtain ⟨file, isFile, leads, entry, index, atIndex, holds, isName, rfl⟩ := provides
  have samePackage := ((leadsTo_importInto (registered.texts target isEntry)).mp leads).2
  rcases (registered.files file).mp isFile with ⟨other, place, atPlace, rfl⟩ | ⟨_, _, _, rfl⟩
  · obtain rfl : place = index := by simpa [fileOf] using holds
    obtain rfl : entry = other := Option.some.inj (atIndex.symm.trans atPlace)
    have same : target = entry := by
      refine List.inj_on_of_nodup_map registered.names isEntry (List.mem_of_getElem? atIndex) ?_
      rw [Prod.mk.injEq]
      exact ⟨samePackage.symm, isName.symm⟩
    rw [same]
  · simp [packageFile] at holds

/-- The import of a type under its model name provides this type only. -/
theorem Registered.provides_iff (registered : Registered code) {modelName other : String}
    {imported : Import} (isImport : importOf code.outline package modelName = .ok imported) :
    imported.Provides code package other ↔ other = modelName := by
  unfold importOf at isImport
  cases found : code.outline.resolve? modelName with
  | none => rw [found] at isImport; cases isImport
  | some target =>
      rw [found] at isImport
      cases isImport
      obtain ⟨isEntry, isName⟩ := Outline.mem_of_resolve? found
      rw [← isName]
      constructor
      · exact fun provides => (registered.modelName_eq isEntry provides).symm
      · rintro rfl
        exact registered.provides isEntry

variable (package) in
/-- Types that have entries have imports. -/
theorem exists_imports {modelNames : List String} (known : ∀ modelName ∈ modelNames,
      ∃ target ∈ code.outline.entries, target.modelName = modelName) :
    ∃ imports, modelNames.mapM (importOf code.outline package) = .ok imports := by
  refine exists_mapM_eq_ok_iff.mpr fun modelName occurs => ?_
  obtain ⟨target, isEntry, rfl⟩ := known modelName occurs
  obtain ⟨found, isFound⟩ := Outline.exists_resolve? isEntry
  exact ⟨importInto package found, by rw [importOf, isFound]⟩

/-- The imports of types under different model names provide exactly these types. -/
theorem Registered.importsExactly (registered : Registered code) {modelNames : List String}
    {imports : List Import} (distinct : modelNames.Nodup)
    (areImports : modelNames.mapM (importOf code.outline package) = .ok imports) :
    ImportsExactly code package imports (· ∈ modelNames) := by
  constructor
  · intro modelName occurs
    obtain ⟨place, atPlace⟩ := List.mem_iff_getElem?.mp occurs
    obtain ⟨imported, isImport⟩ := exists_mapM_eq_ok_iff.mp ⟨imports, areImports⟩ modelName occurs
    refine ⟨place, ⟨imported, ?_, (registered.provides_iff isImport).mpr rfl⟩, ?_⟩
    · exact (getElem?_of_mapM_eq_ok areImports).mpr ⟨modelName, atPlace, isImport⟩
    · rintro other ⟨imported, atOther, provides⟩
      obtain ⟨item, isItem, isImport⟩ := (getElem?_of_mapM_eq_ok areImports).mp atOther
      obtain rfl := (registered.provides_iff isImport).mp provides
      obtain ⟨inside, -⟩ := List.getElem?_eq_some_iff.mp isItem
      exact (List.getElem?_inj inside distinct).mp (isItem.trans atPlace.symm)
  · intro imported occurs
    obtain ⟨modelName, isName, isImport⟩ := (mem_of_mapM_eq_ok areImports).mp occurs
    exact ⟨modelName, isName, (registered.provides_iff isImport).mpr rfl⟩

end Registered

/-! ## Modules of classes -/

theorem nodup_eraseDups (names : List String) : names.eraseDups.Nodup := by
  generalize size : names.length = length
  induction length using Nat.strongRecOn generalizing names with
  | ind length ih =>
      cases names with
      | nil => simp
      | cons first rest =>
          have shorter : (rest.filter fun other => !other == first).length < length := by
            have := List.length_filter_le (fun other => !other == first) rest
            rw [← size, List.length_cons]
            omega
          rw [List.eraseDups_cons, List.nodup_cons]
          exact ⟨by simp, ih _ shorter _ rfl⟩

section ClassModules

variable {outline : Outline} {config : Config} {entry : TypeOutline} {definition : ClassDefinition}
  {fields : List Declared} {modelName : String}

theorem mem_neededNames : modelName ∈ neededNames definition fields ↔
    ((∃ field ∈ fields, modelName ∈ field.valueNames) ∨ modelName ∈ definition.base) ∧
      modelName ≠ definition.name := by
  simp [neededNames]

theorem mem_typeOnlyNames {needed : List String} :
    modelName ∈ typeOnlyNames definition needed ↔
      (∃ field ∈ definition.fields, modelName ∈ field.type.referencedNames) ∧
        modelName ∉ needed ∧ modelName ≠ definition.name := by
  simp [typeOnlyNames]

/-- What a class imports: everything that its types, the values of its fields and its base name,
except for itself. -/
theorem mem_names : modelName ∈ neededNames definition fields ++
    typeOnlyNames definition (neededNames definition fields) ↔
      ((∃ field ∈ definition.fields, modelName ∈ field.type.referencedNames) ∨
        (∃ field ∈ fields, modelName ∈ field.valueNames) ∨ modelName ∈ definition.base) ∧
        modelName ≠ definition.name := by
  rw [List.mem_append, mem_typeOnlyNames, mem_neededNames]
  by_cases isOwn : modelName = definition.name
  · simp [isOwn]
  · by_cases isNeeded : (∃ field ∈ fields, modelName ∈ field.valueNames) ∨
      modelName ∈ definition.base
    · simp only [isNeeded, isOwn, and_true, or_true, true_or, ne_eq, not_false_eq_true]
    · simp only [isNeeded, isOwn, and_true, or_false, false_or, ne_eq, not_false_eq_true]

theorem nodup_names : (neededNames definition fields ++
    typeOnlyNames definition (neededNames definition fields)).Nodup := by
  refine List.Nodup.append ((nodup_eraseDups _).filter _) ((nodup_eraseDups _).filter _) ?_
  exact fun modelName isNeeded isTypeOnly => (mem_typeOnlyNames.mp isTypeOnly).2.1 isNeeded

/-- What the module of a class declares. -/
theorem classModule_inversion {module : ClassModule}
    (isModule : classModule outline config entry definition = .ok module) :
    (orderedFields config definition.fields).mapM (declareField outline) = .ok module.fields ∧
      module.base = definition.base.map (Part.ofType outline) ∧
      module.description = definition.description := by
  obtain ⟨fields, areFields, isModule⟩ := exists_of_bind_eq_ok isModule
  obtain ⟨needed, -, isModule⟩ := exists_of_bind_eq_ok isModule
  obtain ⟨typeOnly, -, isModule⟩ := exists_of_bind_eq_ok isModule
  cases isModule
  exact ⟨areFields, rfl, rfl⟩

/-- A class that refers to nothing but types with entries has a module. -/
theorem exists_classModule {code : GeneratedCode}
    (formed : ∀ field ∈ definition.fields, field.type.Formed)
    (known : ∀ field ∈ definition.fields, ∀ name ∈ field.type.referencedNames,
      ∃ target ∈ code.outline.entries, target.modelName = name)
    (bases : ∀ name ∈ definition.base, ∃ target ∈ code.outline.entries, target.modelName = name) :
    ∃ fields needed typeOnly,
      (∀ name, (∃ field ∈ fields, name ∈ field.typeNames) ↔
        ∃ field ∈ definition.fields, name ∈ field.type.referencedNames) ∧
      (neededNames definition fields).mapM (importOf code.outline entry.package) = .ok needed ∧
      (typeOnlyNames definition (neededNames definition fields)).mapM
        (importOf code.outline entry.package) = .ok typeOnly ∧
      classModule code.outline config entry definition = .ok
        { needed, typeOnly, name := entry.name
          base := definition.base.map (Part.ofType code.outline)
          decorators := entry.annotations ++ [decorator config entry.frozen]
          description := definition.description, fields } := by
  obtain ⟨fields, areFields, writtenInTypes, writtenInValues⟩ :=
    exists_declareFields code.outline config formed
  let needed := neededNames definition fields
  let typeOnly := typeOnlyNames definition needed
  have isKnown (name : String) (imported : name ∈ needed ++ typeOnly) :
      ∃ target ∈ code.outline.entries, target.modelName = name := by
    rcases (mem_names.mp imported).1 with ofType | ofValue | ofBase
    · exact ofType.elim fun field inField => known field inField.1 name inField.2
    · exact (writtenInValues name ofValue).elim fun field inField =>
        known field inField.1 name inField.2
    · exact bases name ofBase
  obtain ⟨atOnce, areAtOnce⟩ := exists_imports entry.package fun name occurs =>
    isKnown name (List.mem_append_left typeOnly occurs)
  obtain ⟨forTypes, areForTypes⟩ := exists_imports entry.package fun name occurs =>
    isKnown name (List.mem_append_right needed occurs)
  refine ⟨fields, atOnce, forTypes, writtenInTypes, areAtOnce, areForTypes, ?_⟩
  simp only [classModule, areFields, areAtOnce, areForTypes, needed, typeOnly, bind, Except.bind]
  rfl

/-- The module of a class imports what it writes. -/
theorem Registered.exists_classModule {code : GeneratedCode} (registered : Registered code)
    (formed : ∀ field ∈ definition.fields, field.type.Formed)
    (known : ∀ field ∈ definition.fields, ∀ name ∈ field.type.referencedNames,
      ∃ target ∈ code.outline.entries, target.modelName = name)
    (bases : ∀ name ∈ definition.base, ∃ target ∈ code.outline.entries, target.modelName = name) :
    ∃ module, classModule code.outline config entry definition = .ok module ∧
      module.Closed code entry.package definition.name := by
  obtain ⟨fields, atOnce, forTypes, writtenInTypes, areAtOnce, areForTypes, isModule⟩ :=
    Python.exists_classModule formed known bases
  let needed := neededNames definition fields
  let typeOnly := typeOnlyNames definition needed
  have isBase (name : String) : (∃ part ∈ definition.base.map (Part.ofType code.outline),
      part.modelName? = some name) ↔ name ∈ definition.base := by
    cases definition.base <;> simp [Part.ofType, Part.modelName?, eq_comm]
  refine ⟨_, isModule, ?imports, ?needed⟩
  case imports =>
    have areImports : (needed ++ typeOnly).mapM (importOf code.outline entry.package) =
        .ok (atOnce ++ forTypes) := by
      rw [List.mapM_append, areAtOnce, areForTypes]
      rfl
    refine (registered.importsExactly nodup_names areImports).congr fun name => ?_
    rw [mem_names, ClassModule.Writes, ClassModule.NeedsAtOnce, writtenInTypes, isBase]
  case needed =>
    intro name needsAtOnce isOther
    have occurs : name ∈ needed :=
      mem_neededNames.mpr ⟨needsAtOnce.imp_right (isBase name).mp, isOther⟩
    obtain ⟨imported, isImport⟩ := exists_mapM_eq_ok_iff.mp ⟨atOnce, areAtOnce⟩ name occurs
    exact ⟨imported, (mem_of_mapM_eq_ok areAtOnce).mpr ⟨name, occurs, isImport⟩,
      (registered.provides_iff isImport).mpr rfl⟩

end ClassModules

/-! ## Modules of packages -/

theorem perm_entriesOf (outline : Outline) (package : Json) :
    (outline.classesOf package ++ outline.enumsOf package).Perm
      (outline.entries.filter fun entry => entry.package.equal package) := by
  have swaps (p : TypeOutline → Bool) :
      (outline.entries.filter p).filter (fun entry => entry.package.equal package) =
        (outline.entries.filter fun entry => entry.package.equal package).filter p := by
    rw [List.filter_filter, List.filter_filter]
    exact List.filter_congr fun entry _ => Bool.and_comm _ _
  rw [Outline.classesOf, Outline.enumsOf, Outline.classes, Outline.enums, swaps, swaps]
  exact List.filter_append_perm TypeOutline.isClass _

/-- A package has a module, which imports the types of the package and nothing else. -/
theorem Registered.exists_packageModule {code : GeneratedCode} (registered : Registered code)
    (package : Json) :
    ∃ module, packageModule code.outline package = .ok module ∧
      ImportsExactly code package module.imports fun modelName =>
        ∃ entry ∈ code.outline.entries, entry.package = package ∧ entry.modelName = modelName := by
  let entries := code.outline.classesOf package ++ code.outline.enumsOf package
  have same := perm_entriesOf code.outline package
  have isEntry (entry : TypeOutline) :
      entry ∈ entries ↔ entry ∈ code.outline.entries ∧ entry.package = package := by
    rw [same.mem_iff, List.mem_filter]
    refine and_congr_right fun occurs => ?_
    obtain ⟨text, isText⟩ := registered.texts entry occurs
    rw [isText, Json.equal_text_iff, eq_comm]
  have distinct : (entries.map TypeOutline.modelName).Nodup :=
    (same.map TypeOutline.modelName).nodup_iff.mpr
      (registered.modelNames.sublist (List.filter_sublist.map _))
  obtain ⟨imports, areImports⟩ := exists_imports package
    fun modelName (occurs : modelName ∈ entries.map TypeOutline.modelName) => by
      obtain ⟨entry, isOwn, isName⟩ := List.mem_map.mp occurs
      exact ⟨entry, ((isEntry entry).mp isOwn).1, isName⟩
  refine ⟨{ imports, names := Text.sorted (entries.map (·.name)) }, ?_, ?_⟩
  · have imports : (entries.mapM fun entry => importOf code.outline package entry.modelName) =
        .ok imports := by
      rw [← areImports, List.mapM_map]
      rfl
    rw [packageModule, imports]
    rfl
  · refine (registered.importsExactly distinct areImports).congr fun modelName => ?_
    simp only [List.mem_map, isEntry, and_assoc]

/-! ## Generated code -/

section Generated

variable {settings : GenerationSettings} {extensions : List Extension} {model : Model}
  {code : GeneratedCode} {channel after : Channel}

theorem registered_of_files {definitions : List TypeDefinition} {named : Outline}
    (distinct : (definitions.map TypeDefinition.name).Nodup)
    (haveTexts : ∀ definition ∈ definitions, definition.HasPackageText)
    (assigns : named.Assigns definitions) (areFiles : code.files = files named)
    (same : code.outline.entries.map TypeOutline.identity =
      named.entries.map TypeOutline.identity) : Registered code := by
  have kept := assigns.congr same
  have texts := assigns.hasPackageTexts haveTexts
  have keptTexts := kept.hasPackageTexts haveTexts
  refine ⟨?_, kept.distinct, keptTexts, fun file => ?_⟩
  · have names := (kept.targets.map TypeDefinition.name).nodup_iff.mpr distinct
    rwa [List.map_map] at names
  · rw [areFiles, ← mem_files_iff keptTexts]
    exact ⟨mem_files_of_identities texts keptTexts same.symm,
      mem_files_of_identities keptTexts texts same⟩

/-- Code that is generated from a coherent model has an entry for every class and enum of the model,
and its files are those of the entries. -/
theorem registered_of_generate (coherent : model.Coherent)
    (haveTexts : ∀ definition ∈ model.definitions, definition.HasPackageText)
    (isPython : settings.language = .python)
    (keep : ∀ extension ∈ extensions, extension.KeepsNames)
    (generates : (GeneratedCode.generate settings extensions model).onChannel channel =
      (.ok (some code), after)) :
    Registered code ∧ code.outline.Assigns model.definitions := by
  obtain ⟨named, assigns, areFiles, same⟩ :=
    GeneratedCode.exists_outline_of_generate haveTexts keep generates
  rw [isPython] at areFiles
  exact ⟨registered_of_files coherent.names haveTexts assigns areFiles same, assigns.congr same⟩

/-- The module of a class or enum of a coherent model imports what it should. -/
theorem importsClosed_fileOf (coherent : model.Coherent) (isPython : settings.language = .python)
    (registered : Registered code) (assigns : code.outline.Assigns model.definitions)
    {entry : TypeOutline} {index : Nat} (atIndex : code.outline.entries[index]? = some entry) :
    ImportsClosed settings code (fileOf entry index) := by
  have known {name : String} (defined : model.Defines name) :=
    Outline.exists_entry_of_defines assigns.targets defined
  refine ⟨entry, atIndex, fun definition isTarget => ?_⟩
  have isClass : definition ∈ model.classes := by
    have isDefinition : TypeDefinition.ofClass definition ∈ model.definitions :=
      assigns.targets.mem_iff.mp (isTarget ▸ List.mem_map_of_mem (List.mem_of_getElem? atIndex))
    simpa [Model.definitions] using isDefinition
  obtain ⟨module, isModule, closed⟩ := registered.exists_classModule
    (coherent.formed definition isClass)
    (fun field isField name occurs =>
      known (coherent.fields definition isClass field isField name occurs))
    (fun name isBase => known (coherent.bases definition isClass name isBase))
  have isRendered : code.render settings (fileOf entry index) =
      renderClass code.outline settings.config entry definition := by
    simp only [GeneratedCode.render, isPython, TargetLanguage.render, render, fileOf, atIndex,
      isTarget]
  refine ⟨module, isModule, ?_, closed⟩
  rw [isRendered, renderClass, isModule]
  rfl

/-- The module of a package imports what it should. -/
theorem importsClosed_packageFile (isPython : settings.language = .python)
    (registered : Registered code) (package : Json) :
    ImportsClosed settings code (packageFile package) := by
  obtain ⟨module, isModule, exactly⟩ := registered.exists_packageModule package
  have isRendered : code.render settings (packageFile package) =
      renderPackage code.outline package := by
    simp only [GeneratedCode.render, isPython, TargetLanguage.render, render, packageFile]
  refine ⟨module, isModule, ?_, exactly⟩
  rw [isRendered, renderPackage, isModule]
  rfl

end Generated

end Python

end Typeloom
