import Typeloom.Proofs.Render.ClassFiles

/-!
# Sealed classes and their bases

Classes that are frozen are sealed in C#, and no class may be derived from a sealed one.  Freezing
all classes does not look at inheritance.  So once the classes are frozen and stay so, each class
with a base is derived from a sealed one.
-/

namespace Typeloom

/-! ## Frozen outlines -/

/-- Whether all classes of an outline are frozen. -/
def Outline.AllFrozen (outline : Outline) : Prop :=
  ∀ entry ∈ outline.entries, entry.isClass = true → entry.frozen = true

/-- Whether an extension leaves frozen classes frozen. -/
def Extension.KeepsFrozen (extension : Extension) : Prop :=
  ∀ outline channel result succeeded after,
    (extension.apply outline).onChannel channel = (.ok (result, succeeded), after) →
      outline.AllFrozen → result.AllFrozen

theorem Extension.allFrozen_frozenClasses {outline result : Outline} {channel after : Channel}
    {succeeded : Bool}
    (returns : (frozenClasses.apply outline).onChannel channel =
      (.ok (result, succeeded), after)) : result.AllFrozen := by
  cases returns
  intro entry isEntry isClass
  obtain ⟨original, -, rfl⟩ := List.mem_map.mp isEntry
  split
  · rfl
  · rename_i noClass
    rw [if_neg noClass] at isClass
    exact absurd isClass noClass

theorem Extension.keepsFrozen_frozenClasses : frozenClasses.KeepsFrozen :=
  fun _ _ _ _ _ returns _ => allFrozen_frozenClasses returns

/-- Extensions that keep frozen what is frozen leave everything frozen if one of them freezes all
classes. -/
theorem Outline.allFrozen_of_applyAll {extensions : List Extension} {outline result : Outline}
    {channel after : Channel} (freezes : .frozenClasses ∈ extensions)
    (keep : ∀ extension ∈ extensions, extension.KeepsFrozen)
    (returns : (Extension.applyAll extensions outline).onChannel channel =
      (.ok (some result), after)) : result.AllFrozen := by
  induction extensions generalizing outline channel with
  | nil => cases freezes
  | cons extension rest ih =>
      obtain ⟨-, keepRest⟩ := List.forall_mem_cons.mp keep
      obtain ⟨⟨changed, succeeded⟩, between, first, later⟩ :=
        Reporting.exists_of_onChannel_bind returns
      cases succeeded with
      | false => cases later
      | true =>
          rcases List.mem_cons.mp freezes with rfl | freezesLater
          · have remains := relates_of_applyAll
              (fun outline result => outline.AllFrozen → result.AllFrozen) (fun _ => id)
              (fun _ _ _ keeps keepsOn => keepsOn ∘ keeps) keepRest later
            exact remains (Extension.allFrozen_frozenClasses first)
          · exact ih freezesLater keepRest later

/-! ## Headers -/

section Headers

variable {settings : GenerationSettings} {code : GeneratedCode} {model : Model}
  {definition : ClassDefinition}

/-- Whether a header is that of the file of a class. -/
def CSharp.Heads (settings : GenerationSettings) (code : GeneratedCode)
    (definition : ClassDefinition) (header : ClassHeader) : Prop :=
  ∃ entry index, code.GeneratesClass definition entry index ∧
    header = headerOf code.outline entry definition ∧
    ∀ file : GeneratedFile, file.content = .entry index → ∃ made : Except Fault ClassFile,
      code.render settings file = made.map ClassFile.text ∧
        ∀ classFile, made = .ok classFile → classFile.header = header

/-- Whether the header of a class names a class as its base that is sealed. -/
def CSharp.HasSealedBase (settings : GenerationSettings) (code : GeneratedCode)
    (definition : ClassDefinition) (base : ClassDefinition) : Prop :=
  definition.base = some base.name ∧
    ∃ header baseHeader, Heads settings code definition header ∧
      Heads settings code base baseHeader ∧ header.base = some baseHeader.name ∧
      baseHeader.isSealed = true

theorem CSharp.heads_headerOf (isCSharp : settings.language = .csharp) {entry : TypeOutline}
    {index : Nat} (generates : code.GeneratesClass definition entry index) :
    Heads settings code definition (headerOf code.outline entry definition) :=
  ⟨entry, index, generates, rfl, fun _ holds => ⟨_, render_class isCSharp generates holds,
    fun _ isFile => (names_of_classFile isFile).1⟩⟩

theorem CSharp.exists_heads (isCSharp : settings.language = .csharp)
    (targets : (code.outline.entries.map TypeOutline.target).Perm model.definitions)
    (isClass : definition ∈ model.classes) : ∃ header, Heads settings code definition header := by
  obtain ⟨entry, index, generates⟩ := GeneratedCode.exists_generatesClass targets isClass
  exact ⟨_, heads_headerOf isCSharp generates⟩

/-- A class is derived from a sealed class just if its base is frozen. -/
theorem CSharp.hasSealedBase_iff (isCSharp : settings.language = .csharp)
    (distinct : (code.outline.entries.map TypeOutline.modelName).Nodup)
    (targets : (code.outline.entries.map TypeOutline.target).Perm model.definitions)
    (isClass : definition ∈ model.classes) {base : ClassDefinition} :
    HasSealedBase settings code definition base ↔
      definition.base = some base.name ∧
        ∃ entry ∈ code.outline.entries, entry.target = .ofClass base ∧ entry.frozen = true := by
  refine and_congr_right fun derives => ?_
  constructor
  · rintro ⟨_, _, -, ⟨entry, index, generates, rfl, -⟩, -, isSealed⟩
    exact ⟨entry, List.mem_of_getElem? generates.1, generates.2, isSealed⟩
  · rintro ⟨parent, isParent, ofBase, isFrozen⟩
    obtain ⟨entry, index, generates⟩ := GeneratedCode.exists_generatesClass targets isClass
    obtain ⟨place, atPlace⟩ := List.mem_iff_getElem?.mp isParent
    refine ⟨_, _, heads_headerOf isCSharp generates,
      heads_headerOf isCSharp ⟨atPlace, ofBase⟩, ?_, isFrozen⟩
    have resolves := Outline.resolve?_modelName distinct isParent
    have isName : parent.modelName = base.name := by rw [TypeOutline.modelName, ofBase]; rfl
    rw [isName] at resolves
    simp only [headerOf, derives, Option.map_some, Outline.typeName, resolves]

end Headers

/-! ## Generated code -/

section Generated

variable {settings : GenerationSettings} {extensions : List Extension} {model : Model}
  {code : GeneratedCode} {channel after between before : Channel}
  {read : String → Except Fault (List UInt8)} {directory sources : List String}
  {request : Except Fault Analysis.Request}

theorem nodup_modelNames_of_generate (coherent : model.Coherent)
    (targets : (code.outline.entries.map TypeOutline.target).Perm model.definitions) :
    (code.outline.entries.map TypeOutline.modelName).Nodup := by
  have names := (targets.map TypeDefinition.name).nodup_iff.mpr coherent.names
  rwa [List.map_map] at names

/-- If all classes are frozen and stay so, whatever has a base is derived from a sealed class. -/
theorem exists_sealedBase (loads : (Loading.loadModel read directory sources request).onChannel
      before = (.ok (some model), between))
    (isCSharp : settings.language = .csharp)
    (keep : ∀ extension ∈ extensions, extension.KeepsTypes)
    (freezes : .frozenClasses ∈ extensions)
    (keepFrozen : ∀ extension ∈ extensions, extension.KeepsFrozen)
    (generates : (GeneratedCode.generate settings extensions model).onChannel channel =
      (.ok (some code), after))
    {definition : ClassDefinition} (isClass : definition ∈ model.classes)
    (derives : definition.base ≠ none) :
    ∃ base ∈ model.classes, CSharp.HasSealedBase settings code definition base := by
  have targets := GeneratedCode.targets_of_generate keep generates
  have distinct := nodup_modelNames_of_generate (Loading.coherent_of_loadModel loads) targets
  obtain ⟨name, isBase⟩ := Option.ne_none_iff_exists'.mp derives
  obtain ⟨base, isBaseClass, rfl⟩ :=
    Loading.exists_base_of_loadModel loads definition isClass name isBase
  obtain ⟨outline, _, -, -, -, applies⟩ := GeneratedCode.generate_inversion generates
  have frozen := Outline.allFrozen_of_applyAll freezes keepFrozen applies
  obtain ⟨entry, index, atIndex, ofBase⟩ := GeneratedCode.exists_generatesClass targets isBaseClass
  have isEntry := List.mem_of_getElem? atIndex
  have isFrozen : entry.frozen = true :=
    frozen entry isEntry (by rw [TypeOutline.isClass, ofBase]; rfl)
  exact ⟨base, isBaseClass, (CSharp.hasSealedBase_iff isCSharp distinct targets isClass).mpr
    ⟨isBase, entry, isEntry, ofBase, isFrozen⟩⟩

/-- Each class of a loaded model has a file if all packages are texts, and the file has a header.
It names a sealed class as the base just if the base is frozen in the end.  If all classes are
frozen and stay so, the headers that do are those of all classes with a base. -/
theorem sealedBases_of_generate
    (loads : (Loading.loadModel read directory sources request).onChannel before =
      (.ok (some model), between))
    (isCSharp : settings.language = .csharp)
    (keep : ∀ extension ∈ extensions, extension.KeepsTypes)
    (generates : (GeneratedCode.generate settings extensions model).onChannel channel =
      (.ok (some code), after)) :
    ((∀ target ∈ model.definitions, target.HasPackageText) → code.HasFiles) ∧
      (∀ definition ∈ model.classes, ∃ header, CSharp.Heads settings code definition header) ∧
      (∀ definition ∈ model.classes, ∀ base,
        CSharp.HasSealedBase settings code definition base ↔ definition.base = some base.name ∧
          ∃ entry ∈ code.outline.entries, entry.target = .ofClass base ∧ entry.frozen = true) ∧
      (.frozenClasses ∈ extensions → (∀ extension ∈ extensions, extension.KeepsFrozen) →
        ∀ definition ∈ model.classes,
          (∃ base ∈ model.classes, CSharp.HasSealedBase settings code definition base) ↔
            definition.base ≠ none) := by
  have targets := GeneratedCode.targets_of_generate keep generates
  have distinct := nodup_modelNames_of_generate (Loading.coherent_of_loadModel loads) targets
  refine ⟨fun haveTexts => GeneratedCode.hasFiles_of_generate haveTexts keep generates,
    fun definition => CSharp.exists_heads isCSharp targets, fun definition isClass base =>
      CSharp.hasSealedBase_iff isCSharp distinct targets isClass, ?_⟩
  intro freezes keepFrozen definition isClass
  constructor
  · rintro ⟨base, -, derives, -⟩
    simp [derives]
  · exact exists_sealedBase loads isCSharp keep freezes keepFrozen generates isClass

end Generated

/-! ## A class and its base -/

theorem loads_frozen_aliasedBase : ∃ model between code after,
    (Loading.loadModel readAliasedBase [] ["file:///a"] (.ok {})).onChannel {} =
        (.ok (some model), between) ∧
      (GeneratedCode.generate { language := .csharp } [.frozenClasses] model).onChannel {} =
        (.ok (some code), after) ∧
      model.classes.map ClassDefinition.base = [none, some "Base"] := by
  have loads : ∃ model between,
      (Loading.loadModel readAliasedBase [] ["file:///a"] (.ok {})).onChannel {} =
          (.ok (some model), between) ∧
        (model.classes.map ClassDefinition.base,
          ((GeneratedCode.generate { language := .csharp } [.frozenClasses] model).onChannel
            {}).1.toOption.join.map fun code => code.files.map GeneratedFile.fileName) =
          ([none, some "Base"], some ["Base.cs", "Derived.cs"]) := by
    apply Reporting.exists_onChannel_eq_some
    rw [Loading.loadModel, Reporting.onChannel_bind, Loading.onChannel_aliasedBase]
    decide +kernel
  obtain ⟨model, between, loads, views⟩ := loads
  obtain ⟨bases, files⟩ := Prod.mk.inj views
  obtain ⟨code, after, generates, -⟩ := Reporting.exists_onChannel_eq_some files
  exact ⟨model, between, code, after, loads, generates, bases⟩

theorem sealedBases_aliasedBase : ∃ model between code after,
    (Loading.loadModel readAliasedBase [] ["file:///a"] (.ok {})).onChannel {} =
        (.ok (some model), between) ∧
      (GeneratedCode.generate { language := .csharp } [.frozenClasses] model).onChannel {} =
        (.ok (some code), after) ∧
      model.classes.map ClassDefinition.base = [none, some "Base"] ∧
      ∀ definition ∈ model.classes,
        (∃ base ∈ model.classes,
          CSharp.HasSealedBase { language := .csharp } code definition base) ↔
            definition.base ≠ none := by
  obtain ⟨model, between, code, after, loads, generates, bases⟩ := loads_frozen_aliasedBase
  have ofCode := sealedBases_of_generate loads rfl keepsTypes_frozenClasses generates
  have keepFrozen : ∀ extension ∈ [Extension.frozenClasses], extension.KeepsFrozen :=
    List.forall_mem_singleton.mpr Extension.keepsFrozen_frozenClasses
  exact ⟨model, between, code, after, loads, generates, bases,
    ofCode.2.2.2 List.mem_cons_self keepFrozen⟩

/-- A class is derived from a sealed one. -/
theorem hasSealedBase_aliasedBase : ∃ model between code after,
    (Loading.loadModel readAliasedBase [] ["file:///a"] (.ok {})).onChannel {} =
        (.ok (some model), between) ∧
      (GeneratedCode.generate { language := .csharp } [.frozenClasses] model).onChannel {} =
        (.ok (some code), after) ∧
      ∃ definition ∈ model.classes, ∃ base ∈ model.classes,
        CSharp.HasSealedBase { language := .csharp } code definition base := by
  obtain ⟨model, between, code, after, loads, generates, bases⟩ := loads_frozen_aliasedBase
  have keepFrozen : ∀ extension ∈ [Extension.frozenClasses], extension.KeepsFrozen :=
    List.forall_mem_singleton.mpr Extension.keepsFrozen_frozenClasses
  have isBase : some "Base" ∈ model.classes.map ClassDefinition.base := by simp [bases]
  obtain ⟨definition, isClass, derives⟩ := List.mem_map.mp isBase
  exact ⟨model, between, code, after, loads, generates, definition, isClass,
    exists_sealedBase loads rfl keepsTypes_frozenClasses List.mem_cons_self keepFrozen generates
      isClass (by simp [derives])⟩

end Typeloom
