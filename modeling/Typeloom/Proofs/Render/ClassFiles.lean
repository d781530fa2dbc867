import Mathlib.Data.List.Perm.Basic
import Typeloom.Proofs.Failing
import Typeloom.Proofs.Naming.Identifiers
import Typeloom.Proofs.Render.Imports
import Typeloom.Proofs.Render.Renaming

/-!
# Generated classes

The file of a class is a text, but it is made of a header and of properties, whose names can be told
apart.  Different JSON properties may lead to one name: in Python if an underscore is all that
makes them different, in C# if they have the same words, or if one is named after the class and
the other one takes the name that the first one gets for that reason.
-/

namespace Typeloom

/-- Whether a class of a model is generated as an entry of the outline of code. -/
def GeneratedCode.GeneratesClass (code : GeneratedCode) (definition : ClassDefinition)
    (entry : TypeOutline) (index : Nat) : Prop :=
  code.outline.entries[index]? = some entry ∧ entry.target = .ofClass definition

theorem GeneratedCode.exists_generatesClass {code : GeneratedCode} {model : Model}
    (targets : (code.outline.entries.map TypeOutline.target).Perm model.definitions)
    {definition : ClassDefinition} (isClass : definition ∈ model.classes) :
    ∃ entry index, code.GeneratesClass definition entry index := by
  have isTarget : TypeDefinition.ofClass definition ∈
      code.outline.entries.map TypeOutline.target :=
    targets.mem_iff.mpr (List.mem_append_left _ (List.mem_map_of_mem isClass))
  obtain ⟨entry, isEntry, ofClass⟩ := List.mem_map.mp isTarget
  obtain ⟨index, atIndex⟩ := List.mem_iff_getElem?.mp isEntry
  exact ⟨entry, index, atIndex, ofClass⟩

/-- Whether each class and enum of generated code has a file. -/
def GeneratedCode.HasFiles (code : GeneratedCode) : Prop :=
  ∀ index entry, code.outline.entries[index]? = some entry →
    ∃ file ∈ code.files, file.content = .entry index

theorem TargetLanguage.exists_file (language : TargetLanguage) {outline : Outline}
    (haveTexts : outline.HasPackageTexts) {entry : TypeOutline} {index : Nat}
    (atIndex : outline.entries[index]? = some entry) :
    ∃ file ∈ language.files outline, file.content = .entry index := by
  cases language with
  | python =>
      exact ⟨Python.fileOf entry index, (Python.mem_files_iff haveTexts).mpr
        (Or.inl ⟨entry, index, atIndex, rfl⟩), rfl⟩
  | csharp =>
      have isPackage : entry.package ∈ outline.packages :=
        (Outline.mem_packages_iff haveTexts).mpr ⟨entry, List.mem_of_getElem? atIndex, rfl⟩
      have isNumbered :
          (entry, index) ∈ Python.numberedEntries outline entry.package entry.isClass :=
        (Python.mem_numberedEntries_iff haveTexts).mpr ⟨atIndex, rfl, rfl⟩
      refine ⟨_, List.mem_flatMap.mpr ⟨entry.package, isPackage,
        List.mem_map.mpr ⟨(entry, index), ?_, rfl⟩⟩, rfl⟩
      cases isClass : entry.isClass with
      | true => exact List.mem_append_left _ (isClass ▸ isNumbered)
      | false => exact List.mem_append_right _ (isClass ▸ isNumbered)

/-- If all packages are texts, each class and enum of generated code has a file. -/
theorem GeneratedCode.hasFiles_of_generate {settings : GenerationSettings}
    {extensions : List Extension} {model : Model} {code : GeneratedCode} {channel after : Channel}
    (haveTexts : ∀ definition ∈ model.definitions, definition.HasPackageText)
    (keep : ∀ extension ∈ extensions, extension.KeepsTypes)
    (generates : (generate settings extensions model).onChannel channel =
      (.ok (some code), after)) : code.HasFiles := by
  intro index entry atIndex
  obtain ⟨outline, between, names, noError, areFiles, applies⟩ := generate_inversion generates
  have texts := (assigns_of_outlineOf haveTexts names noError).hasPackageTexts haveTexts
  have same := congrArg (·[index]?) (Outline.targets_of_applyAll keep applies)
  simp only [List.getElem?_map, atIndex, Option.map_some] at same
  obtain ⟨original, atOriginal, -⟩ := Option.map_eq_some_iff.mp same.symm
  rw [areFiles]
  exact settings.language.exists_file texts atOriginal

/-! ## C# -/

namespace CSharp

/-- A property as it is declared, with its name apart. -/
structure Property where
  jsonName : String
  /-- What stands in front of the name. -/
  front : String
  name : String
  /-- What stands behind the name. -/
  back : String
  description : Json

def Property.declared (property : Property) : Declared where
  jsonName := property.jsonName
  declaration := property.front ++ property.name ++ property.back
  description := property.description

def propertyOf (outline : Outline) (entry : TypeOutline) (field : FieldDefinition) :
    Except Fault Property := do
  let modifiers :=
    if field.required && field.default?.isNone then "public required" else "public"
  let accessor := if entry.frozen then "\x7b get; init; \x7d" else "\x7b get; set; \x7d"
  let type ← typeText outline field.type
  let value ←
    match field.default? with
    | some value => defaultValue outline value field.type
    | none => pure none
  return {
    jsonName := Json.quote field.name
    front := modifiers ++ " " ++ type ++ " "
    name := propertyName entry.name field.name
    back := " " ++ accessor ++ (value.map fun text => " = " ++ text ++ ";").getD ""
    description := field.description }

/-- The line above the properties of a class. -/
structure ClassHeader where
  isSealed : Bool
  name : String
  base : Option String

def ClassHeader.text (header : ClassHeader) : String :=
  let head := (if header.isSealed then "public sealed class " else "public class ") ++ header.name
  match header.base with
  | some base => head ++ " : " ++ base
  | none => head

def headerOf (outline : Outline) (entry : TypeOutline) (definition : ClassDefinition) :
    ClassHeader where
  isSealed := entry.frozen
  name := entry.name
  base := definition.base.map outline.typeName

/-- The file of a class. -/
structure ClassFile where
  /-- What stands above the header. -/
  top : String
  header : ClassHeader
  properties : List Property

def ClassFile.text (file : ClassFile) : String :=
  file.top ++ line file.header.text ++ line "\x7b" ++
    "\n".intercalate (file.properties.map fun property => propertyText property.declared) ++
    line "\x7d"

def classFile (outline : Outline) (config : Config) (entry : TypeOutline)
    (definition : ClassDefinition) : Except Fault ClassFile := do
  let properties ← definition.fields.mapM (propertyOf outline entry)
  let referenced :=
    (definition.fields.flatMap fun field => field.type.referencedNames) ++ definition.base.toList
  let used ← usings outline config entry.package referenced
  let summary ← summaryBlock definition.description
  return {
    top := usingBlock used ++ namespaceBlock (namespaceOf config entry.package) ++ summary ++
      lines entry.annotations
    header := headerOf outline entry definition
    properties }

section Files

variable {outline : Outline} {config : Config} {entry : TypeOutline} {definition : ClassDefinition}

theorem declareProperty_eq (field : FieldDefinition) :
    declareProperty outline entry field =
      (propertyOf outline entry field).map Property.declared := by
  unfold declareProperty propertyOf
  cases typeText outline field.type with
  | error fault => rfl
  | ok type =>
      cases field.default? with
      | none =>
          simp [bind, Except.bind, pure, Except.pure, Except.map, Property.declared,
            String.append_assoc]
      | some value =>
          simp only [bind, Except.bind]
          cases defaultValue outline value field.type with
          | error fault => rfl
          | ok text? =>
              cases text? <;>
                simp [pure, Except.pure, Except.map, Property.declared, String.append_assoc]

theorem text_headerOf : (headerOf outline entry definition).text =
    classHeader outline entry definition := by
  unfold ClassHeader.text headerOf classHeader
  cases definition.base <;> rfl

theorem renderClass_eq : renderClass outline config entry definition =
    (classFile outline config entry definition).map ClassFile.text := by
  have declares : (definition.fields.map id).mapM (declareProperty outline entry) =
      List.map Property.declared <$> definition.fields.mapM (propertyOf outline entry) :=
    mapM_map_eq fun field _ => declareProperty_eq field
  rw [List.map_id] at declares
  unfold renderClass classFile
  rw [declares]
  cases definition.fields.mapM (propertyOf outline entry) with
  | error fault => rfl
  | ok properties =>
      simp only [bind, Except.bind, Functor.map, Except.map]
      cases usings outline config entry.package _ with
      | error fault => rfl
      | ok used =>
          cases summaryBlock definition.description with
          | error fault => rfl
          | ok summary =>
              simp [pure, Except.pure, ClassFile.text, text_headerOf, List.map_map,
                Function.comp_def]

theorem names_of_classFile {file : ClassFile}
    (isFile : classFile outline config entry definition = .ok file) :
    file.header = headerOf outline entry definition ∧
      file.properties.map Property.name =
        definition.fields.map fun field => propertyName entry.name field.name := by
  obtain ⟨properties, areProperties, rest⟩ := exists_of_bind_eq_ok isFile
  obtain ⟨used, -, rest⟩ := exists_of_bind_eq_ok rest
  obtain ⟨summary, -, last⟩ := exists_of_bind_eq_ok rest
  cases last
  refine ⟨rfl, map_of_mapM_eq_ok (fun field property declares => ?_) areProperties⟩
  obtain ⟨type, -, rest⟩ := exists_of_bind_eq_ok declares
  dsimp only at rest
  split at rest
  all_goals
    obtain ⟨value, -, last⟩ := exists_of_bind_eq_ok rest
    cases last
    rfl

end Files

/-! ## Names of properties -/

/-- No name of a property is a keyword: its first letter is a capital. -/
theorem memberSpelling_eq (name : String) :
    memberSpelling name =
      if Naming.pascalCase name = "" then name else Naming.pascalCase name := by
  have noKeyword : (if Naming.pascalCase name = "" then name else Naming.pascalCase name) ∉
      Naming.csharpKeywords := by
    refine Naming.notMem_csharpKeywords fun first begins => ?_
    split at begins
    · rename_i isEmpty
      have noLetter := Naming.pascalCase_eq_empty_iff.mp isEmpty first
        (List.mem_of_mem_head? begins)
      exact Bool.eq_false_iff.mpr fun isSmall => Bool.eq_false_iff.mp noLetter
        (Naming.isAlphanum_iff.mpr (Or.inl (Or.inr isSmall)))
    · exact Naming.isLower_eq_false (Naming.resumes_pascalCase name first begins)
  have isEmpty : (Naming.pascalCase name).isEmpty = true ↔ Naming.pascalCase name = "" := by
    simp
  simp only [memberSpelling, isEmpty, Naming.escapeKeyword, List.contains_iff_mem,
    if_neg noKeyword]

/-- Different names are spelled the same just if they have words, and these are spelled the
same. -/
theorem memberSpelling_eq_iff {first second : String} (differ : first ≠ second) :
    memberSpelling first = memberSpelling second ↔
      Naming.pascalCase first ≠ "" ∧ Naming.pascalCase first = Naming.pascalCase second := by
  have apart {name other : String} (isEmpty : Naming.pascalCase name = "")
      (nonempty : Naming.pascalCase other ≠ "") : name ≠ Naming.pascalCase other := by
    rintro rfl
    obtain ⟨character, occurs⟩ := List.exists_mem_of_ne_nil _
      (mt String.toList_eq_nil_iff.mp nonempty)
    have noLetter := Naming.pascalCase_eq_empty_iff.mp isEmpty character occurs
    exact Bool.eq_false_iff.mp noLetter (Naming.isAlphanum_of_mem_pascalCase occurs)
  rw [memberSpelling_eq, memberSpelling_eq]
  by_cases ofFirst : Naming.pascalCase first = "" <;>
    by_cases ofSecond : Naming.pascalCase second = ""
  · simp [ofFirst, ofSecond, differ]
  · simp [ofFirst, ofSecond, apart ofFirst ofSecond]
  · simp [ofFirst, ofSecond, Ne.symm (apart ofSecond ofFirst)]
  · simp [ofFirst, ofSecond]

/-- Whether two JSON properties lead to one property of a class: they have the same words, or one is
spelled like the class and the other one like the class with what is put behind the first one. -/
def SharesProperty (className first second : String) : Prop :=
  (Naming.pascalCase first ≠ "" ∧ Naming.pascalCase first = Naming.pascalCase second) ∨
    (memberSpelling first = className ∧ memberSpelling second = className ++ "Value") ∨
    (memberSpelling second = className ∧ memberSpelling first = className ++ "Value")

theorem append_value_ne (name : String) : name ++ "Value" ≠ name := by
  intro same
  have longer := congrArg String.length same
  simp at longer

theorem propertyName_ne (className field : String) : propertyName className field ≠ className := by
  unfold propertyName
  dsimp only
  split
  · rename_i same
    rw [same]
    exact append_value_ne className
  · assumption

theorem propertyName_eq_iff {className first second : String} (differ : first ≠ second) :
    propertyName className first = propertyName className second ↔
      SharesProperty className first second := by
  have injective : Function.Injective fun name : String => name ++ "Value" :=
    fun _ _ same => (String.append_left_inj "Value").mp same
  have marked {name other : String} : (name = className ∧ ¬other = className ∧
      name ++ "Value" = other) ↔ name = className ∧ other = className ++ "Value" := by
    constructor
    · rintro ⟨rfl, -, rfl⟩
      exact ⟨rfl, rfl⟩
    · rintro ⟨rfl, rfl⟩
      exact ⟨rfl, append_value_ne _, rfl⟩
  rw [SharesProperty, ← memberSpelling_eq_iff differ, ← marked, ← marked]
  exact ite_mark_eq_iff injective (· = className)

theorem nodup_names_iff {outline : Outline} {config : Config} {entry : TypeOutline}
    {definition : ClassDefinition} {file : ClassFile}
    (isFile : classFile outline config entry definition = .ok file)
    (distinct : (definition.fields.map FieldDefinition.name).Nodup) :
    (file.properties.map Property.name).Nodup ↔
      definition.fields.Pairwise fun first second =>
        ¬SharesProperty file.header.name first.name second.name := by
  obtain ⟨isHeader, names⟩ := names_of_classFile isFile
  have isName : file.header.name = entry.name := congrArg ClassHeader.name isHeader
  rw [names, isName, List.Nodup, List.pairwise_map]
  have differ := List.pairwise_map.mp distinct
  constructor
  · exact differ.imp₂ fun _ _ differ apart => mt (propertyName_eq_iff differ).mpr apart
  · exact differ.imp₂ fun _ _ differ apart => mt (propertyName_eq_iff differ).mp apart

theorem ne_of_mem_properties {outline : Outline} {config : Config} {entry : TypeOutline}
    {definition : ClassDefinition} {file : ClassFile}
    (isFile : classFile outline config entry definition = .ok file) {property : Property}
    (occurs : property ∈ file.properties) : property.name ≠ file.header.name := by
  obtain ⟨isHeader, names⟩ := names_of_classFile isFile
  have isName : property.name ∈ file.properties.map Property.name := List.mem_map_of_mem occurs
  rw [names] at isName
  obtain ⟨field, -, same⟩ := List.mem_map.mp isName
  rw [← same, isHeader]
  exact propertyName_ne entry.name field.name

theorem render_class {settings : GenerationSettings} {code : GeneratedCode}
    (isCSharp : settings.language = .csharp) {definition : ClassDefinition} {entry : TypeOutline}
    {index : Nat} (generates : code.GeneratesClass definition entry index) {file : GeneratedFile}
    (holds : file.content = .entry index) :
    code.render settings file =
      (classFile code.outline settings.config entry definition).map ClassFile.text := by
  rw [← renderClass_eq]
  simp only [GeneratedCode.render, isCSharp, TargetLanguage.render, render, holds, generates.1,
    generates.2]

end CSharp

/-! ## Python -/

namespace Python

theorem perm_orderedFields (config : Config) (fields : List FieldDefinition) :
    (orderedFields config fields).Perm fields := by
  unfold orderedFields
  split
  · exact .refl _
  · exact List.filter_append_perm isMandatory fields

theorem names_of_classModule {outline : Outline} {config : Config} {entry : TypeOutline}
    {definition : ClassDefinition} {module : ClassModule}
    (isModule : classModule outline config entry definition = .ok module) :
    module.fields.map Declared.name =
      (orderedFields config definition.fields).map fun field =>
        Naming.attributeName field.name := by
  refine map_of_mapM_eq_ok (fun field declared declares => ?_) (classModule_inversion isModule).1
  obtain ⟨type, -, last⟩ := exists_of_bind_eq_ok declares
  cases last
  rfl

theorem nodup_attributes_iff {outline : Outline} {config : Config} {entry : TypeOutline}
    {definition : ClassDefinition} {module : ClassModule}
    (isModule : classModule outline config entry definition = .ok module) :
    (module.fields.map Declared.name).Nodup ↔
      definition.fields.Pairwise fun first second =>
        ¬Naming.SharesAttribute first.name second.name := by
  have same := (perm_orderedFields config definition.fields).map fun field =>
    Naming.attributeName field.name
  rw [names_of_classModule isModule, same.nodup_iff, List.Nodup, List.pairwise_map]
  simp only [ne_eq, Naming.attributeName_eq_iff]

/-- A class of a coherent model has a module. -/
theorem exists_classModule_of_coherent {code : GeneratedCode} {model : Model}
    (coherent : model.Coherent)
    (targets : (code.outline.entries.map TypeOutline.target).Perm model.definitions)
    {definition : ClassDefinition} (isClass : definition ∈ model.classes) (config : Config)
    (entry : TypeOutline) :
    ∃ module, classModule code.outline config entry definition = .ok module := by
  have known {name : String} (defined : model.Defines name) :=
    Outline.exists_entry_of_defines targets defined
  obtain ⟨fields, needed, typeOnly, -, -, -, isModule⟩ := exists_classModule
    (coherent.formed definition isClass)
    (fun field isField name occurs =>
      known (coherent.fields definition isClass field isField name occurs))
    (fun name isBase => known (coherent.bases definition isClass name isBase))
  exact ⟨_, isModule⟩

theorem render_class {settings : GenerationSettings} {code : GeneratedCode}
    (isPython : settings.language = .python) {definition : ClassDefinition} {entry : TypeOutline}
    {index : Nat} (generates : code.GeneratesClass definition entry index) {module : ClassModule}
    (isModule : classModule code.outline settings.config entry definition = .ok module)
    {file : GeneratedFile} (holds : file.content = .entry index) :
    code.render settings file = module.text := by
  simp only [GeneratedCode.render, isPython, TargetLanguage.render, render, holds, generates.1,
    generates.2, renderClass, isModule]
  rfl

end Python

/-! ## Identifiers in generated classes -/

section Generated

variable {settings : GenerationSettings} {extensions : List Extension} {model : Model}
  {code : GeneratedCode} {channel after : Channel}

/-- A class of a loaded model is generated, and has a file if all packages are texts.  Its
attributes in Python are different just if no two of its properties are the same but for
underscores.  Its properties in C# are never named as the class, and they are different just if no
two of them lead to one name. -/
theorem identifiers_of_generate {read : String → Except Fault (List UInt8)}
    {directory sources : List String} {request : Except Fault Analysis.Request}
    {before between : Channel}
    (loads : (Loading.loadModel read directory sources request).onChannel before =
      (.ok (some model), between))
    (keep : ∀ extension ∈ extensions, extension.KeepsTypes)
    (generates : (GeneratedCode.generate settings extensions model).onChannel channel =
      (.ok (some code), after))
    {definition : ClassDefinition} (isClass : definition ∈ model.classes)
    (distinct : (definition.fields.map FieldDefinition.name).Nodup) :
    ((∀ target ∈ model.definitions, target.HasPackageText) → code.HasFiles) ∧
    ∃ entry index, code.GeneratesClass definition entry index ∧
      ∀ file : GeneratedFile, file.content = .entry index →
        (settings.language = .python → ∃ module,
          Python.classModule code.outline settings.config entry definition = .ok module ∧
          code.render settings file = module.text ∧
          ((module.fields.map Python.Declared.name).Nodup ↔
            definition.fields.Pairwise fun first second =>
              ¬Naming.SharesAttribute first.name second.name)) ∧
        (settings.language = .csharp → ∃ made : Except Fault CSharp.ClassFile,
          CSharp.classFile code.outline settings.config entry definition = made ∧
          code.render settings file = made.map CSharp.ClassFile.text ∧
          ∀ classFile, made = .ok classFile →
            (∀ property ∈ classFile.properties, property.name ≠ classFile.header.name) ∧
            ((classFile.properties.map CSharp.Property.name).Nodup ↔
              definition.fields.Pairwise fun first second =>
                ¬CSharp.SharesProperty classFile.header.name first.name second.name)) := by
  have targets := GeneratedCode.targets_of_generate keep generates
  obtain ⟨entry, index, isGenerated⟩ := GeneratedCode.exists_generatesClass targets isClass
  refine ⟨fun haveTexts => GeneratedCode.hasFiles_of_generate haveTexts keep generates, entry,
    index, isGenerated, fun file holds => ⟨fun isPython => ?_, fun isCSharp => ?_⟩⟩
  · obtain ⟨module, isModule⟩ := Python.exists_classModule_of_coherent
      (Loading.coherent_of_loadModel loads) targets isClass settings.config entry
    exact ⟨module, isModule, Python.render_class isPython isGenerated isModule holds,
      Python.nodup_attributes_iff isModule⟩
  · refine ⟨_, rfl, CSharp.render_class isCSharp isGenerated holds, fun classFile isFile => ?_⟩
    exact ⟨fun property => CSharp.ne_of_mem_properties isFile,
      CSharp.nodup_names_iff isFile distinct⟩

end Generated

/-! ## Two properties with one name -/

/-- The definition of a class with two properties that differ in a mark only. -/
def twins : Json.Members :=
  [("definitions", .object
    [("Item", .object
      [("properties", .object
        [("a-b", .object [("type", .text "string")]),
         ("a_b", .object [("type", .text "string")])])])])]

/-- A document with this definition. -/
def readTwins (_ : String) : Except Fault (List UInt8) :=
  .ok ("\x7b\"definitions\": \x7b\"Item\": \x7b\"properties\": \x7b" ++
    "\"a-b\": \x7b\"type\": \"string\"\x7d, " ++
    "\"a_b\": \x7b\"type\": \"string\"\x7d\x7d\x7d\x7d\x7d").toUTF8.toList

/-- The names that the class for a definition declares. -/
def declaredNames (language : TargetLanguage) (outline : Outline) (entry : TypeOutline)
    (definition : ClassDefinition) : Except Fault (List String) :=
  match language with
  | .python => (Python.classModule outline {} entry definition).map fun module =>
      module.fields.map Python.Declared.name
  | .csharp => (CSharp.classFile outline {} entry definition).map fun file =>
      file.properties.map CSharp.Property.name

theorem loads_twins : ∃ model between,
    (Loading.loadModel readTwins [] ["file:///a"] (.ok {})).onChannel {} =
        (.ok (some model), between) ∧
      (model.classes.map fun definition => definition.fields.map FieldDefinition.name,
        [TargetLanguage.python, .csharp].map fun language =>
          ((GeneratedCode.generate { language } [.frozenClasses] model).onChannel
            {}).1.toOption.join.map fun code => code.outline.entries.map fun entry =>
              entry.target.class?.bind fun definition =>
                (declaredNames language code.outline entry definition).toOption) =
        ([["a-b", "a_b"]], [some [some ["a_b", "a_b"]], some [some ["AB", "AB"]]]) := by
  have isRead : Forest.members? readTwins "file:///a" = some twins := by decide +kernel
  have alone : Forest.externalReferences (.object twins) = [] := by decide +kernel
  apply Reporting.exists_onChannel_eq_some
  rw [Loading.loadModel, Reporting.onChannel_bind, Loading.onChannel_alone isRead alone]
  decide +kernel

/-- The class with two properties, and the code for it in each language. -/
theorem generates_twins : ∃ model between definition,
    (Loading.loadModel readTwins [] ["file:///a"] (.ok {})).onChannel {} =
        (.ok (some model), between) ∧
      definition ∈ model.classes ∧ (definition.fields.map FieldDefinition.name).Nodup ∧
      ∀ language : TargetLanguage, ∃ code after,
        (GeneratedCode.generate { language } [.frozenClasses] model).onChannel {} =
          (.ok (some code), after) ∧
        ∀ entry ∈ code.outline.entries, entry.target = .ofClass definition →
          ∃ names, declaredNames language code.outline entry definition = .ok names ∧
            ¬names.Nodup := by
  obtain ⟨model, between, loads, views⟩ := loads_twins
  obtain ⟨fields, codes⟩ := Prod.mk.inj views
  obtain ⟨definition, rest, isModel, names, -⟩ := List.map_eq_cons_iff.mp fields
  have isClass : definition ∈ model.classes := isModel ▸ List.mem_cons_self
  refine ⟨model, between, definition, loads, isClass, names ▸ by decide, fun language => ?_⟩
  have declares : ∃ names : List String, ¬names.Nodup ∧
      (((GeneratedCode.generate { language } [.frozenClasses] model).onChannel
        {}).1.toOption.join.map fun code => code.outline.entries.map fun entry =>
          entry.target.class?.bind fun definition =>
            (declaredNames language code.outline entry definition).toOption) =
        some [some names] := by
    obtain ⟨ofPython, ofCSharp⟩ := List.cons.inj codes
    cases language with
    | python => exact ⟨_, by decide, ofPython⟩
    | csharp => exact ⟨_, by decide, (List.cons.inj ofCSharp).1⟩
  obtain ⟨names, repeats, outcome⟩ := declares
  obtain ⟨code, after, generates, declared⟩ := Reporting.exists_onChannel_eq_some outcome
  refine ⟨code, after, generates, fun entry isEntry isTarget => ⟨names, ?_, repeats⟩⟩
  have isSeen := declared ▸ List.mem_map_of_mem isEntry
  rw [isTarget] at isSeen
  exact Except.eq_ok_of_toOption (List.mem_singleton.mp isSeen)

theorem keepsTypes_frozenClasses :
    ∀ extension ∈ [Extension.frozenClasses], extension.KeepsTypes :=
  List.forall_mem_singleton.mpr Extension.keepsNames_frozenClasses.keepsTypes

theorem identifiers_twins : ∃ model between definition code after,
    (Loading.loadModel readTwins [] ["file:///a"] (.ok {})).onChannel {} =
        (.ok (some model), between) ∧
      (GeneratedCode.generate {} [.frozenClasses] model).onChannel {} = (.ok (some code), after) ∧
      definition ∈ model.classes ∧ (definition.fields.map FieldDefinition.name).Nodup ∧
      ∃ entry index, code.GeneratesClass definition entry index ∧
        ∀ file : GeneratedFile, file.content = .entry index → ∃ module,
          Python.classModule code.outline {} entry definition = .ok module ∧
          code.render {} file = module.text ∧
          ((module.fields.map Python.Declared.name).Nodup ↔
            definition.fields.Pairwise fun first second =>
              ¬Naming.SharesAttribute first.name second.name) := by
  obtain ⟨model, between, definition, loads, isClass, distinct, codes⟩ := generates_twins
  obtain ⟨code, after, generates, -⟩ := codes .python
  obtain ⟨-, entry, index, isGenerated, ofFiles⟩ :=
    identifiers_of_generate loads keepsTypes_frozenClasses generates isClass distinct
  exact ⟨model, between, definition, code, after, loads, generates, isClass, distinct, entry, index,
    isGenerated, fun file holds => (ofFiles file holds).1 rfl⟩

/-- In both languages the class declares one name twice. -/
theorem names_repeat_twins : ∃ model between definition,
    (Loading.loadModel readTwins [] ["file:///a"] (.ok {})).onChannel {} =
        (.ok (some model), between) ∧
      definition ∈ model.classes ∧ (definition.fields.map FieldDefinition.name).Nodup ∧
      ∀ language : TargetLanguage, ∃ code after entry index names,
        (GeneratedCode.generate { language } [.frozenClasses] model).onChannel {} =
          (.ok (some code), after) ∧
        code.GeneratesClass definition entry index ∧
        declaredNames language code.outline entry definition = .ok names ∧ ¬names.Nodup := by
  obtain ⟨model, between, definition, loads, isClass, distinct, codes⟩ := generates_twins
  refine ⟨model, between, definition, loads, isClass, distinct, fun language => ?_⟩
  obtain ⟨code, after, generates, declares⟩ := codes language
  have targets := GeneratedCode.targets_of_generate keepsTypes_frozenClasses generates
  obtain ⟨entry, index, isGenerated⟩ := GeneratedCode.exists_generatesClass targets isClass
  obtain ⟨names, declared⟩ :=
    declares entry (List.mem_of_getElem? isGenerated.1) isGenerated.2
  exact ⟨code, after, entry, index, names, generates, isGenerated, declared⟩

end Typeloom
