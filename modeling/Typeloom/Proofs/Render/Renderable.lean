import Typeloom.Proofs.Model.Presentable
import Typeloom.Proofs.Render.Imports
import Typeloom.Render.Signature

/-!
# Files that can be rendered

In a model of sound documents everything is there that rendering looks up, and what it joins to a
text is a text.  So whatever outline is made of the model, each of its files has a text in every
target language, and the outline has signatures.
-/

namespace Typeloom

namespace Json

theorem IsText.exists_joinableText {value : Json} (isText : value.IsText) :
    ∃ text, value.joinableText = .ok text := by
  obtain ⟨content, rfl⟩ := isText
  exact ⟨content, rfl⟩

/-- What is made of texts runs through texts. -/
theorem AreTexts.exists_elements {value : Json} (areTexts : value.AreTexts) :
    ∃ items, value.elements = .ok items ∧ ∀ item ∈ items, item.IsText := by
  obtain ⟨items, rfl, ofItems⟩ := areTexts
  exact ⟨items, rfl, ofItems⟩

end Json

/-! ## Sound models -/

/-- Whether all that rendering looks up in a model is there, and all that it joins is a text. -/
structure Model.Sound (model : Model) : Prop where
  coherent : model.Coherent
  enumReferences : ∀ definition ∈ model.classes, ∀ field ∈ definition.fields,
    ∀ part : TypeExpr, part.Occurs field.type → part.kind = .enumRef →
      ∃ target ∈ model.enums, target.name = part.name
  classes : ∀ definition ∈ model.classes, definition.Presentable
  enums : ∀ definition ∈ model.enums, definition.Presentable

/-- An analysis that meets no fault yields a sound model if what it finds can be presented. -/
theorem Analysis.sound_of_analyze {library : Library} {request : Request}
    {channel after : Channel} {result : State}
    (returned : (analyze library request).onChannel channel = (.ok result, after))
    (presentable : result.Presentable library) : result.model.Sound where
  coherent := coherent_of_analyze returned
  enumReferences := by
    intro definition isClass field isField part occurs
    have resolved := of_analyze_eq_ok (ensures_resolved _) returned
    exact ((resolved definition isClass).fields field isField part occurs).2
  classes := presentable.classes
  enums := presentable.enums

namespace Model.Sound

variable {model : Model} (sound : model.Sound)

include sound

theorem hasPackageText : ∀ definition ∈ model.definitions, definition.HasPackageText := by
  intro definition occurs
  rcases List.mem_append.mp occurs with isClass | isEnum
  · obtain ⟨target, isTarget, rfl⟩ := List.mem_map.mp isClass
    exact (sound.classes target isTarget).package
  · obtain ⟨target, isTarget, rfl⟩ := List.mem_map.mp isEnum
    exact (sound.enums target isTarget).package

theorem presentable_class {definition : ClassDefinition}
    (occurs : TypeDefinition.ofClass definition ∈ model.definitions) :
    definition ∈ model.classes ∧ definition.Presentable := by
  have isClass : definition ∈ model.classes := by simpa [definitions] using occurs
  exact ⟨isClass, sound.classes definition isClass⟩

theorem presentable_enum {definition : EnumDefinition}
    (occurs : TypeDefinition.ofEnum definition ∈ model.definitions) : definition.Presentable :=
  sound.enums definition (by simpa [definitions] using occurs)

end Model.Sound

/-! ## Entries of outlines -/

namespace Outline.Assigns

variable {model : Model} {outline : Outline}

theorem mem_definitions {entry : TypeOutline} (assigns : outline.Assigns model.definitions)
    (isEntry : entry ∈ outline.entries) : entry.target ∈ model.definitions :=
  assigns.targets.mem_iff.mp (List.mem_map_of_mem isEntry)

/-- The name of an enum leads to an entry of an enum: no class has the same name. -/
theorem exists_resolve_enum (assigns : outline.Assigns model.definitions)
    (coherent : model.Coherent) {name : String}
    (found : ∃ target ∈ model.enums, target.name = name) :
    ∃ entry definition, outline.resolve? name = some entry ∧ entry.target = .ofEnum definition ∧
      definition ∈ model.enums := by
  obtain ⟨target, isEnum, rfl⟩ := found
  have isDefinition : TypeDefinition.ofEnum target ∈ model.definitions :=
    List.mem_append_right _ (List.mem_map_of_mem isEnum)
  obtain ⟨other, isOther, isTarget⟩ := List.mem_map.mp (assigns.targets.mem_iff.mpr isDefinition)
  have isName : other.modelName = target.name := by rw [TypeOutline.modelName, isTarget]; rfl
  obtain ⟨entry, resolves⟩ := Outline.exists_resolve? isOther
  obtain ⟨isEntry, sameName⟩ := Outline.mem_of_resolve? resolves
  have same : entry.target = .ofEnum target :=
    List.inj_on_of_nodup_map coherent.names (assigns.mem_definitions isEntry) isDefinition
      (sameName.trans isName)
  exact ⟨entry, target, isName ▸ resolves, same, isEnum⟩

end Outline.Assigns

/-! ## Python -/

namespace Python

theorem exists_descriptionText {description : Json}
    (described : description.isTruthy = true → description.IsText) :
    ∃ text, descriptionText description = .ok text := by
  unfold descriptionText
  split
  · rename_i truthy
    obtain ⟨content, rfl⟩ := described truthy
    exact ⟨_, rfl⟩
  · exact ⟨none, rfl⟩

theorem exists_renderEnum (entry : TypeOutline) {definition : EnumDefinition}
    (presentable : definition.Presentable) : ∃ text, renderEnum entry definition = .ok text := by
  obtain ⟨description, isText⟩ := exists_descriptionText presentable.description
  exact ⟨_, by rw [renderEnum, isText]; rfl⟩

theorem ClassModule.exists_text {module : ClassModule}
    (described : module.description.isTruthy = true → module.description.IsText) :
    ∃ text, module.text = .ok text := by
  obtain ⟨description, isText⟩ := exists_descriptionText described
  exact ⟨_, by rw [ClassModule.text, ClassModule.textWith, isText]; rfl⟩

variable {settings : GenerationSettings} {model : Model} {outline : Outline}

/-- Every Python file has a text. -/
theorem exists_render (sound : model.Sound) (assigns : outline.Assigns model.definitions)
    (config : Config) {file : GeneratedFile} (isFile : file ∈ files outline) :
    ∃ text, render outline config file = .ok text := by
  let code : GeneratedCode := { outline, files := files outline }
  let settings : GenerationSettings := { config }
  have isPython : settings.language = .python := rfl
  have registered : Registered code :=
    registered_of_files sound.coherent.names sound.hasPackageText assigns rfl rfl
  rcases (registered.files file).mp isFile with ⟨entry, index, atIndex, rfl⟩ | ⟨entry, -, -, rfl⟩
  · have isDefinition := assigns.mem_definitions (List.mem_of_getElem? atIndex)
    cases isTarget : entry.target with
    | ofClass definition =>
        obtain ⟨other, atOther, ofClass⟩ :=
          importsClosed_fileOf sound.coherent isPython registered assigns atIndex
        obtain rfl := Option.some.inj (atOther.symm.trans atIndex)
        obtain ⟨module, isModule, isRendered, -⟩ := ofClass definition isTarget
        have presentable := (sound.presentable_class (isTarget ▸ isDefinition)).2
        have sameDescription := (classModule_inversion isModule).2.2
        obtain ⟨text, isText⟩ := module.exists_text (sameDescription ▸ presentable.description)
        exact ⟨text, isRendered.trans isText⟩
    | ofEnum definition =>
        have presentable := sound.presentable_enum (isTarget ▸ isDefinition)
        obtain ⟨text, isText⟩ := exists_renderEnum entry presentable
        refine ⟨text, ?_⟩
        change outline.entries[index]? = some entry at atIndex
        simp only [render, fileOf, atIndex, isTarget, isText]
  · obtain ⟨module, -, isRendered, -⟩ :=
      importsClosed_packageFile isPython registered entry.package
    exact ⟨_, isRendered⟩

end Python

/-! ## C# -/

namespace CSharp

theorem typeTexts_eq_mapM (outline : Outline) (types : List TypeExpr) :
    typeTexts outline types = types.mapM (typeText outline) := by
  induction types with
  | nil => rw [typeTexts]; rfl
  | cons first rest ih => rw [typeTexts, List.mapM_cons, ih]

/-- A well-formed type has a spelling. -/
theorem exists_typeText (outline : Outline) {type : TypeExpr} (formed : type.Formed) :
    ∃ text, typeText outline type = .ok text := by
  induction formed with
  | @leaf kind name constant isLeaf =>
      cases kind with
      | array | tuple | union | optional => simp at isLeaf
      | _ => exact ⟨_, by rw [typeText]⟩
  | @single kind name argument constant isSingle formed ih =>
      obtain ⟨text, isText⟩ := ih
      cases kind with
      | array => exact ⟨_, by rw [typeText, isText]; rfl⟩
      | optional => exact ⟨_, by rw [typeText, isText]; rfl⟩
      | _ => simp at isSingle
  | @several kind name arguments constant isSeveral formed ih =>
      obtain ⟨texts, areTexts⟩ := exists_mapM_eq_ok_iff.mpr ih
      rw [← typeTexts_eq_mapM] at areTexts
      cases kind with
      | tuple =>
          match arguments with
          | [] => exact ⟨_, by rw [typeText]; simp⟩
          | [_] => exact ⟨_, by rw [typeText]; simp⟩
          | _ :: _ :: _ => exact ⟨_, by rw [typeText, areTexts]; rfl⟩
      | union => exact ⟨_, by rw [typeText]⟩
      | _ => simp at isSeveral

theorem exists_enumMemberName {name : Json} (isText : name.IsText) :
    ∃ text, enumMemberName name = .ok text := by
  obtain ⟨content, rfl⟩ := isText
  unfold enumMemberName
  split <;> exact ⟨_, rfl⟩

variable {model : Model} {outline : Outline} {config : Config}

/-- A default value of a field is looked up in an enum only. -/
theorem exists_defaultValue (sound : model.Sound) (assigns : outline.Assigns model.definitions)
    {type : TypeExpr} (value : Json) (leads : type.withoutOptional.kind = .enumRef →
      ∃ target ∈ model.enums, target.name = type.withoutOptional.name) :
    ∃ text?, defaultValue outline value type = .ok text? := by
  have ofEnum (isEnum : type.withoutOptional.kind = .enumRef) :
      ∃ text?, enumDefault outline type.withoutOptional.name value = .ok text? := by
    obtain ⟨entry, definition, resolves, isTarget, occurs⟩ :=
      assigns.exists_resolve_enum sound.coherent (leads isEnum)
    simp only [enumDefault, resolves, isTarget]
    cases found : definition.members.find? fun member => member.2.equal value with
    | none => exact ⟨none, rfl⟩
    | some member =>
        have isText := (sound.enums definition occurs).members member
          (List.mem_of_find?_eq_some found)
        obtain ⟨name, isName⟩ := exists_enumMemberName isText
        exact ⟨some (entry.name ++ "." ++ name), by simp only [isName]; rfl⟩
  unfold defaultValue
  dsimp only
  split
  · exact ⟨_, rfl⟩
  · split
    · rename_i isEnum
      exact ofEnum isEnum
    · split <;> exact ⟨_, rfl⟩

theorem occurs_withoutOptional (type : TypeExpr) : type.withoutOptional.Occurs type := by
  obtain ⟨kind, name, arguments, constant⟩ := type
  unfold TypeExpr.withoutOptional
  dsimp only
  split
  · exact .argument List.mem_cons_self .self
  · exact .self

theorem exists_declareProperty (sound : model.Sound)
    (assigns : outline.Assigns model.definitions) (entry : TypeOutline)
    {definition : ClassDefinition} (isClass : definition ∈ model.classes) {field : FieldDefinition}
    (isField : field ∈ definition.fields) :
    ∃ declared, declareProperty outline entry field = .ok declared := by
  obtain ⟨type, isType⟩ :=
    exists_typeText outline (sound.coherent.formed definition isClass field isField)
  unfold declareProperty
  simp only [isType]
  cases field.default? with
  | none => exact ⟨_, rfl⟩
  | some value =>
      obtain ⟨text?, isValue⟩ := exists_defaultValue sound assigns value
        (sound.enumReferences definition isClass field isField _ (occurs_withoutOptional _))
      simp only [isValue]
      exact ⟨_, rfl⟩

/-- Whether the namespaces that a configuration gives are texts. -/
structure NamespaceTexts (config : Config) : Prop where
  own : config.csharpNamespace.IsText
  additional : config.csharpAdditionalUsings.AreTexts

theorem isText_namespaceOf (texts : NamespaceTexts config) {package : Json}
    (isText : package.IsText) : (namespaceOf config package).IsText := by
  unfold namespaceOf
  split
  · exact texts.own
  · exact isText

theorem exists_usings (texts : NamespaceTexts config) (packages : outline.HasPackageTexts)
    (package : Json) (modelNames : List String) :
    ∃ names, usings outline config package modelNames = .ok names := by
  obtain ⟨additional, areElements, areTexts⟩ := texts.additional.exists_elements
  have foreign : ∀ name ∈ foreignNamespaces outline config package modelNames, name.IsText := by
    intro name occurs
    obtain ⟨modelName, -, isForeign⟩ := List.mem_filterMap.mp occurs
    obtain ⟨target, resolves, isNamespace⟩ := Option.bind_eq_some_iff.mp isForeign
    dsimp only at isNamespace
    split at isNamespace <;> cases isNamespace
    exact isText_namespaceOf texts (packages target (Outline.mem_of_resolve? resolves).1)
  have allTexts : ∀ name ∈ additional ++ foreignNamespaces outline config package modelNames,
      ∃ text, name.joinableText = .ok text := by
    intro name occurs
    exact ((List.mem_append.mp occurs).elim (areTexts name) (foreign name)).exists_joinableText
  obtain ⟨names, areNames⟩ := exists_mapM_eq_ok_iff.mpr allTexts
  unfold usings
  simp only [areElements, bind, Except.bind] at areNames ⊢
  rw [areNames]
  exact ⟨_, rfl⟩

theorem exists_summaryBlock {description : Json}
    (described : description.isTruthy = true → description.IsText) :
    ∃ text, summaryBlock description = .ok text := by
  unfold summaryBlock
  split
  · rename_i truthy
    obtain ⟨content, rfl⟩ := described truthy
    exact ⟨_, rfl⟩
  · exact ⟨"", rfl⟩

theorem exists_renderClass (sound : model.Sound) (assigns : outline.Assigns model.definitions)
    (texts : NamespaceTexts config) (entry : TypeOutline) {definition : ClassDefinition}
    (isClass : definition ∈ model.classes) :
    ∃ text, renderClass outline config entry definition = .ok text := by
  refine exists_bind_eq_ok (exists_mapM_eq_ok_iff.mpr fun field isField => ?_) fun _ => ?_
  · exact exists_declareProperty sound assigns entry isClass isField
  refine exists_bind_eq_ok (exists_usings texts
    (assigns.hasPackageTexts sound.hasPackageText) _ _) fun _ => ?_
  refine exists_bind_eq_ok (exists_summaryBlock ?_) fun _ => ⟨_, rfl⟩
  exact (sound.classes definition isClass).description

theorem exists_memberText (valueType : String) {member : Json × Json} (isText : member.1.IsText)
    (index : Nat) : ∃ text, memberText valueType member index = .ok text := by
  refine exists_bind_eq_ok (exists_enumMemberName isText) fun name => ?_
  split
  · exact ⟨_, rfl⟩
  · split <;> exact ⟨_, rfl⟩

theorem exists_renderEnum (config : Config) (entry : TypeOutline) {definition : EnumDefinition}
    (presentable : definition.Presentable) :
    ∃ text, renderEnum config entry definition = .ok text := by
  refine exists_bind_eq_ok (exists_mapM_eq_ok_iff.mpr fun member occurs => ?_) fun _ => ?_
  · have isMember : member.1 ∈ definition.members :=
      (List.mem_zipIdx' occurs).2 ▸ List.getElem_mem _
    exact exists_memberText _ (presentable.members _ isMember) _
  · exact exists_bind_eq_ok (exists_summaryBlock presentable.description) fun _ => ⟨_, rfl⟩

/-- A C# file is that of an entry. -/
theorem exists_entry_of_mem_files {file : GeneratedFile} (isFile : file ∈ files outline) :
    ∃ entry index, outline.entries[index]? = some entry ∧ file.content = .entry index := by
  obtain ⟨package, -, ofPackage⟩ := List.mem_flatMap.mp isFile
  obtain ⟨⟨entry, index⟩, isNumbered, rfl⟩ := List.mem_map.mp ofPackage
  have isEntry : (entry, index) ∈ outline.entries.zipIdx :=
    (List.mem_append.mp isNumbered).elim List.mem_of_mem_filter List.mem_of_mem_filter
  exact ⟨entry, index, List.mem_zipIdx_iff_getElem?.mp isEntry, rfl⟩

/-- Every C# file has a text if the namespaces that the configuration gives are texts. -/
theorem exists_render (sound : model.Sound) (assigns : outline.Assigns model.definitions)
    (texts : NamespaceTexts config) {file : GeneratedFile} (isFile : file ∈ files outline) :
    ∃ text, render outline config file = .ok text := by
  obtain ⟨entry, index, atIndex, isContent⟩ := exists_entry_of_mem_files isFile
  have isDefinition := assigns.mem_definitions (List.mem_of_getElem? atIndex)
  simp only [render, isContent, atIndex]
  split
  · rename_i definition isTarget
    have isClass := (sound.presentable_class (isTarget ▸ isDefinition)).1
    exact exists_renderClass sound assigns texts entry isClass
  · rename_i definition isTarget
    exact exists_renderEnum config entry (sound.presentable_enum (isTarget ▸ isDefinition))

end CSharp

/-! ## Signatures -/

namespace Signature

theorem typeTexts_eq_mapM (outline : Outline) (types : List TypeExpr) :
    typeTexts outline types = types.mapM (typeText outline) := by
  induction types with
  | nil => rw [typeTexts]; rfl
  | cons first rest ih => rw [typeTexts, List.mapM_cons, ih]

/-- A well-formed type has a signature. -/
theorem exists_typeText (outline : Outline) {type : TypeExpr} (formed : type.Formed) :
    ∃ text, typeText outline type = .ok text := by
  induction formed with
  | @leaf kind name constant isLeaf =>
      cases kind with
      | array | tuple | union | optional => simp at isLeaf
      | _ => exact ⟨_, by rw [typeText]⟩
  | @single kind name argument constant isSingle formed ih =>
      obtain ⟨text, isText⟩ := ih
      cases kind with
      | array => exact ⟨_, by rw [typeText, isText]; rfl⟩
      | optional => exact ⟨_, by rw [typeText, isText]; rfl⟩
      | _ => simp at isSingle
  | @several kind name arguments constant isSeveral formed ih =>
      obtain ⟨texts, areTexts⟩ := exists_mapM_eq_ok_iff.mpr ih
      rw [← typeTexts_eq_mapM] at areTexts
      cases kind with
      | tuple => exact ⟨_, by rw [typeText, areTexts]; rfl⟩
      | union => exact ⟨_, by rw [typeText, areTexts]; rfl⟩
      | _ => simp at isSeveral

variable {model : Model} {outline : Outline}

/-- Whether the signature of a class or enum can be written: the types of the fields of a class are
well-formed, the names of the members of an enum are texts. -/
def Writable (entry : TypeOutline) : Prop :=
  match entry.target with
  | .ofClass definition => ∀ field ∈ definition.fields, field.type.Formed
  | .ofEnum definition => ∀ member ∈ definition.members, member.1.IsText

theorem Writable.exists_entryText {entry : TypeOutline} (writable : Writable entry) :
    ∃ text, entryText outline entry = .ok text := by
  unfold Writable at writable
  unfold entryText
  split
  · rename_i definition isTarget
    rw [isTarget] at writable
    refine exists_bind_eq_ok (exists_mapM_eq_ok_iff.mpr fun field isField => ?_) fun _ => ⟨_, rfl⟩
    have formed := writable field isField
    exact exists_bind_eq_ok (exists_typeText outline formed) fun _ => ⟨_, rfl⟩
  · rename_i definition isTarget
    rw [isTarget] at writable
    refine exists_bind_eq_ok (exists_mapM_eq_ok_iff.mpr fun member isMember => ?_) fun _ => ⟨_, rfl⟩
    exact exists_bind_eq_ok (writable member isMember).exists_joinableText fun _ => ⟨_, rfl⟩

theorem writable_of_sound (sound : model.Sound) (assigns : outline.Assigns model.definitions)
    {entry : TypeOutline} (isEntry : entry ∈ outline.entries) : Writable entry := by
  have isDefinition := assigns.mem_definitions isEntry
  unfold Writable
  split
  · rename_i definition isTarget
    exact sound.coherent.formed definition
      (sound.presentable_class (isTarget ▸ isDefinition)).1
  · rename_i definition isTarget
    exact (sound.presentable_enum (isTarget ▸ isDefinition)).members

theorem mapM_text? (texts : List String) :
    (texts.map Json.text).mapM Json.text? = some texts := by
  induction texts with
  | nil => rfl
  | cons text rest ih => rw [List.map_cons, List.mapM_cons, ih]; rfl

theorem sortedPackages_texts (texts : List String) :
    sortedPackages (texts.map .text) = .ok ((Text.sorted texts).map .text) := by
  unfold sortedPackages
  split
  · rename_i package isSingle
    obtain ⟨text, rfl, rfl⟩ := List.map_eq_singleton_iff.mp isSingle
    rw [Text.sorted, List.mergeSort_singleton]
    rfl
  · rw [mapM_text?]

theorem exists_packageTexts (haveTexts : outline.HasPackageTexts) :
    ∃ texts : List String, outline.packages = texts.map .text := by
  have areTexts : outline.packages ∈ Set.range (List.map Json.text) := by
    rw [Set.range_list_map]
    intro package occurs
    obtain ⟨entry, isEntry, rfl⟩ := (Outline.mem_packages_iff haveTexts).mp occurs
    obtain ⟨text, isText⟩ := haveTexts entry isEntry
    exact ⟨text, isText.symm⟩
  obtain ⟨texts, same⟩ := areTexts
  exact ⟨texts, same.symm⟩

/-- The types that are listed for a package are types of the outline. -/
theorem mem_entries_of_listed {package : Json} {entry : TypeOutline}
    (listed : entry ∈ Text.sortedBy TypeOutline.name (outline.classesOf package) ++
      Text.sortedBy TypeOutline.name (outline.enumsOf package)) : entry ∈ outline.entries := by
  have same := (Text.perm_sortedBy TypeOutline.name (outline.classesOf package)).append
    (Text.perm_sortedBy TypeOutline.name (outline.enumsOf package))
  exact List.mem_of_mem_filter
    ((Python.perm_entriesOf outline package).mem_iff.mp (same.mem_iff.mp listed))

/-- An outline has signatures if all classes and enums have. -/
theorem exists_dump (haveTexts : outline.HasPackageTexts)
    (writable : ∀ entry ∈ outline.entries, Writable entry) :
    ∃ text, dump outline = .ok text := by
  obtain ⟨texts, areTexts⟩ := exists_packageTexts haveTexts
  refine exists_bind_eq_ok (exists_mapM_eq_ok_iff.mpr fun piece occurs => ?_) fun _ => ⟨_, rfl⟩
  rw [pieces, areTexts, sortedPackages_texts] at occurs
  obtain ⟨package, -, isPiece⟩ := List.mem_flatMap.mp occurs
  rcases List.mem_append.mp isPiece with first | isLast
  · rcases List.mem_cons.mp first with rfl | isEntryText
    · exact ⟨_, rfl⟩
    · obtain ⟨entry, isListed, rfl⟩ := List.mem_map.mp isEntryText
      exact (writable entry (mem_entries_of_listed isListed)).exists_entryText
  · rw [List.mem_singleton.mp isLast]
    exact ⟨_, rfl⟩

end Signature

/-! ## Generated code -/

open Reporting in
/-- Whatever code is generated from a sound model, its files have texts, and its outline has
signatures. -/
theorem GeneratedCode.exists_texts_of_ofModel {settings : GenerationSettings} {model : Model}
    {code : GeneratedCode} {channel after : Channel} (sound : model.Sound)
    (texts : CSharp.NamespaceTexts settings.config)
    (generates : onChannel (ofModel settings model) channel = (.ok (some code), after)) :
    (∀ file ∈ code.files, ∃ text, code.render settings file = .ok text) ∧
      ∃ text, Signature.dump code.outline = .ok text := by
  obtain ⟨outline, names, isMade, noError⟩ := exists_of_onChannel_unless generates fun _ _ => rfl
  cases isMade
  have assigns := assigns_of_outlineOf sound.hasPackageText names noError
  refine ⟨fun file isFile => ?_, Signature.exists_dump (assigns.hasPackageTexts sound.hasPackageText)
    fun entry => Signature.writable_of_sound sound assigns⟩
  unfold GeneratedCode.render
  cases isLanguage : settings.language with
  | python =>
      simp only [isLanguage, TargetLanguage.files] at isFile
      exact Python.exists_render sound assigns settings.config isFile
  | csharp =>
      simp only [isLanguage, TargetLanguage.files] at isFile
      exact CSharp.exists_render sound assigns texts isFile

end Typeloom
