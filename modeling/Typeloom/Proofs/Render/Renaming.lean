import Typeloom.Proofs.Generate.Renaming
import Typeloom.Proofs.Render.Renderable

/-!
# Renaming does not show

Whatever is generated shows the generated names of the classes and enums and never their names in
the model.  Files and signatures therefore stay the same when the classes and enums of an outline
are renamed, as long as different ones keep different names and whatever the classes refer to is
there.  Replacing names is thus the same as renaming the model.
-/

namespace Typeloom

/-- Whether an outline has entries for whatever a class refers to. -/
structure Outline.ClosedClass (outline : Outline) (definition : ClassDefinition) : Prop where
  fields : ∀ field ∈ definition.fields, ∀ name ∈ field.type.referencedNames, outline.Knows name
  base : ∀ name ∈ definition.base, outline.Knows name

/-- Whether an outline has entries for whatever its classes refer to. -/
def Outline.Closed (outline : Outline) : Prop :=
  ∀ entry ∈ outline.entries, ∀ definition, entry.target = .ofClass definition →
    outline.ClosedClass definition

variable {outline : Outline} {naming : String → String}

theorem List.map_intercalate {α β : Type} (f : α → β) (separator : List α)
    (parts : List (List α)) :
    (separator.intercalate parts).map f = (separator.map f).intercalate (parts.map (List.map f)) := by
  induction parts with
  | nil => rfl
  | cons first rest ih =>
      cases rest with
      | nil => simp [List.intercalate]
      | cons second rest =>
          rw [List.intercalate_cons_cons, List.map_append, List.map_append, ih, List.map_cons,
            List.map_cons, List.map_cons, List.intercalate_cons_cons]

/-- Repetitions among names stay where they are if different names get different images. -/
theorem List.eraseDups_map_of_injOn {names : List String} {naming : String → String}
    (separated : Set.InjOn naming {name | name ∈ names}) :
    (names.map naming).eraseDups = names.eraseDups.map naming := by
  generalize size : names.length = length
  induction length using Nat.strongRecOn generalizing names with
  | ind length ih =>
      cases names with
      | nil => rfl
      | cons first rest =>
          have kept : (rest.map naming).filter (fun other => !other == naming first) =
              (rest.filter fun other => !other == first).map naming := by
            rw [List.filter_map]
            refine congrArg (List.map naming) (List.filter_congr fun other occurs => ?_)
            have sameTest := separated.eq_iff (List.mem_cons_of_mem first occurs) List.mem_cons_self
            by_cases isFirst : other = first <;> simp [isFirst, sameTest]
          have shorter : (rest.filter fun other => !other == first).length < length := by
            have := List.length_filter_le (fun other => !other == first) rest
            rw [← size, List.length_cons]
            omega
          rw [List.map_cons, List.eraseDups_cons, List.eraseDups_cons, List.map_cons, kept]
          refine congrArg (naming first :: ·) (ih _ shorter (separated.mono ?_) rfl)
          exact fun other occurs => List.mem_cons_of_mem first (List.mem_of_mem_filter occurs)

/-- Renaming first and computing afterwards is computing first and renaming afterwards, if it is so
for each item. -/
theorem mapM_map_eq {α β γ δ : Type} {before : α → β} {after : γ → δ} {f : β → Except Fault δ}
    {g : α → Except Fault γ} {items : List α}
    (commutes : ∀ item ∈ items, f (before item) = after <$> g item) :
    (items.map before).mapM f = List.map after <$> items.mapM g := by
  induction items with
  | nil => rfl
  | cons first rest ih =>
      obtain ⟨ofFirst, ofRest⟩ := List.forall_mem_cons.mp commutes
      rw [List.map_cons, List.mapM_cons, List.mapM_cons, ofFirst, ih ofRest]
      simp only [bind_map_left, map_bind, map_pure, List.map_cons]

theorem mapM_map_congr {α β γ : Type} {before : α → β} {f : β → Except Fault γ}
    {g : α → Except Fault γ} {items : List α} (same : ∀ item ∈ items, f (before item) = g item) :
    (items.map before).mapM f = items.mapM g := by
  have commutes (item : α) (occurs : item ∈ items) : f (before item) = id <$> g item := by
    rw [same item occurs, id_map]
  rw [mapM_map_eq commutes, List.map_id_fun, id_map]

theorem Outline.entries_rename (outline : Outline) (naming : String → String) :
    (outline.rename naming).entries = outline.entries.map (TypeOutline.rename naming) :=
  rfl

namespace Python

/-! ## Python -/

def Part.rename (naming : String → String) : Part → Part
  | .plain text => .plain text
  | .named modelName name => .named (naming modelName) name

@[simp]
theorem Part.text_rename (naming : String → String) (part : Part) :
    (part.rename naming).text = part.text := by
  cases part <;> rfl

@[simp]
theorem Part.joined_map_rename (naming : String → String) (parts : List Part) :
    Part.joined (parts.map (Part.rename naming)) = Part.joined parts := by
  simp [joined, Function.comp_def]

theorem Part.modelNames_map_rename (naming : String → String) (parts : List Part) :
    Part.modelNames (parts.map (Part.rename naming)) = (Part.modelNames parts).map naming := by
  rw [modelNames, modelNames, List.filterMap_map, List.map_filterMap]
  refine congrArg (List.filterMap · parts) (funext fun part => ?_)
  cases part <;> rfl

theorem Part.ofType_rename (separated : outline.IsSeparatedBy naming) {name : String}
    (known : outline.Knows name) :
    Part.ofType (outline.rename naming) (naming name) =
      (Part.ofType outline name).rename naming := by
  rw [ofType, Outline.typeName_rename separated known]
  rfl

def TypeText.rename (naming : String → String) (type : TypeText) : TypeText :=
  { type with parts := type.parts.map (Part.rename naming) }

theorem TypeText.between_rename (naming : String → String) (before after : String)
    (type : TypeText) :
    (type.rename naming).between before after = (type.between before after).rename naming := by
  simp [TypeText.between, TypeText.rename, Part.rename]

theorem TypeText.join_rename (naming : String → String) (separator : String)
    (types : List TypeText) :
    TypeText.join separator (types.map (TypeText.rename naming)) =
      (TypeText.join separator types).rename naming := by
  rw [join, join, rename, List.flatMap_map, List.map_map]
  rw [List.map_intercalate, List.map_map]
  rfl

mutual

theorem typeText_rename (separated : outline.IsSeparatedBy naming) (type : TypeExpr)
    (known : ∀ name ∈ type.referencedNames, outline.Knows name) :
    typeText (outline.rename naming) (type.rename naming) =
      TypeText.rename naming <$> typeText outline type := by
  obtain ⟨kind, name, arguments, constant⟩ := type
  rw [TypeExpr.referencedNames] at known
  have ofArguments (other : String) (occurs : other ∈ TypeExpr.referencedNamesOfAll arguments) :=
    known other (List.mem_append_right _ occurs)
  rw [TypeExpr.rename]
  cases kind with
  | primitive =>
      simp only [reduceCtorEq, or_self, if_false]
      rw [typeText, typeText]
      cases primitiveType? name <;> rfl
  | classRef =>
      simp only [true_or, if_true]
      rw [typeText, typeText, Part.ofType_rename separated (known name (by simp))]
      rfl
  | enumRef =>
      simp only [or_true, if_true]
      rw [typeText, typeText, Part.ofType_rename separated (known name (by simp))]
      rfl
  | array =>
      cases arguments with
      | nil =>
          rw [TypeExpr.renameAll, typeText, typeText]
          rfl
      | cons item rest =>
          have ofItem := typeText_rename separated item fun other occurs =>
            ofArguments other (List.mem_append_left _ occurs)
          rw [TypeExpr.renameAll, typeText, typeText, ofItem]
          simp only [bind_map_left, map_bind, map_pure, TypeText.between_rename]
  | tuple =>
      have ofItems := typeTexts_rename separated arguments ofArguments
      cases arguments with
      | nil =>
          rw [TypeExpr.renameAll, typeText, typeText]
          rfl
      | cons first rest =>
          rw [TypeExpr.renameAll] at ofItems ⊢
          rw [typeText, typeText, ofItems]
          simp only [bind_map_left, map_bind, map_pure, TypeText.join_rename,
            TypeText.between_rename]
  | union =>
      rw [typeText, typeText, typeTexts_rename separated arguments ofArguments]
      simp only [bind_map_left, map_bind, map_pure, TypeText.join_rename]
  | optional =>
      cases arguments with
      | nil =>
          rw [TypeExpr.renameAll, typeText, typeText]
          rfl
      | cons inner rest =>
          have ofInner := typeText_rename separated inner fun other occurs =>
            ofArguments other (List.mem_append_left _ occurs)
          rw [TypeExpr.renameAll, typeText, typeText, ofInner]
          simp only [bind_map_left, map_bind, map_pure, TypeText.between_rename]
  | literal =>
      rw [typeText, typeText]
      rfl
  | any =>
      rw [typeText, typeText]
      rfl

theorem typeTexts_rename (separated : outline.IsSeparatedBy naming) (types : List TypeExpr)
    (known : ∀ name ∈ TypeExpr.referencedNamesOfAll types, outline.Knows name) :
    typeTexts (outline.rename naming) (TypeExpr.renameAll naming types) =
      List.map (TypeText.rename naming) <$> typeTexts outline types := by
  cases types with
  | nil =>
      rw [TypeExpr.renameAll, typeTexts, typeTexts]
      rfl
  | cons type rest =>
      rw [TypeExpr.referencedNamesOfAll] at known
      have ofType := typeText_rename separated type fun other occurs =>
        known other (List.mem_append_left _ occurs)
      have ofRest := typeTexts_rename separated rest fun other occurs =>
        known other (List.mem_append_right _ occurs)
      rw [TypeExpr.renameAll, typeTexts, typeTexts, ofType, ofRest]
      simp only [bind_map_left, map_bind, map_pure, List.map_cons]

end

def Declared.rename (naming : String → String) (field : Declared) : Declared :=
  { field with
    type := field.type.rename naming
    value := field.value.map (List.map (Part.rename naming)) }

theorem Declared.declaration_rename (naming : String → String) (field : Declared) :
    (field.rename naming).declaration = field.declaration := by
  obtain ⟨name, type, value, description, usesField⟩ := field
  cases value <;> simp [declaration, rename, TypeText.text, TypeText.rename]

theorem Declared.valueNames_rename (naming : String → String) (field : Declared) :
    (field.rename naming).valueNames = field.valueNames.map naming := by
  obtain ⟨name, type, value, description, usesField⟩ := field
  cases value with
  | none => rfl
  | some parts => exact Part.modelNames_map_rename naming parts

theorem fieldDefault_rename (separated : outline.IsSeparatedBy naming) (field : FieldDefinition)
    (known : ∀ name ∈ field.type.referencedNames, outline.Knows name) :
    fieldDefault (outline.rename naming) (field.rename naming) =
      (fieldDefault outline field).map (Option.map (List.map (Part.rename naming))) id := by
  obtain ⟨name, type, required, default?, description⟩ := field
  unfold fieldDefault FieldDefinition.rename
  cases default? with
  | none => cases required <;> rfl
  | some value =>
      simp only [TypeExpr.withoutOptional_rename, TypeExpr.kind_rename]
      by_cases constructs : type.withoutOptional.kind = .enumRef ∧ value ≠ .null
      · have isKnown : outline.Knows type.withoutOptional.name :=
          known _ (referencedNames_withoutOptional _ (name_mem_referencedNames constructs.1))
        rw [if_pos constructs, if_pos constructs, TypeExpr.name_rename constructs.1,
          Part.ofType_rename separated isKnown]
        rfl
      · rw [if_neg constructs, if_neg constructs]
        rfl

theorem fieldValue_rename (naming : String → String) (name : String) (value : Option (List Part))
    (needsFactory : Bool) :
    fieldValue name (value.map (List.map (Part.rename naming))) needsFactory =
      (fieldValue name value needsFactory).map (Option.map (List.map (Part.rename naming))) id := by
  unfold fieldValue
  cases value <;> cases needsFactory <;> cases Naming.attributeName name != name <;>
    simp [Part.rename]

theorem declareField_rename (separated : outline.IsSeparatedBy naming) (field : FieldDefinition)
    (known : ∀ name ∈ field.type.referencedNames, outline.Knows name) :
    declareField (outline.rename naming) (field.rename naming) =
      Declared.rename naming <$> declareField outline field := by
  have ofDefault := fieldDefault_rename separated field known
  have ofType := typeText_rename separated field.type known
  unfold declareField
  rw [ofDefault]
  simp only [FieldDefinition.rename, ofType, bind_map_left, map_bind, Prod.map_fst, Prod.map_snd,
    fieldValue_rename]
  rfl

/-- What a declaration writes in a value is the name of a type to which the field refers. -/
theorem valueNames_of_declareField {field : FieldDefinition} {declared : Declared}
    (declares : declareField outline field = .ok declared) :
    declared.valueNames ⊆ field.type.referencedNames := by
  obtain ⟨type, -, isDeclared⟩ := exists_of_bind_eq_ok declares
  have names := modelNames_fieldDefault outline field
  rw [← modelNames_fieldValue field.name _ (fieldDefault outline field).2] at names
  cases isDeclared
  exact names

theorem orderedFields_rename (config : Config) (fields : List FieldDefinition) :
    orderedFields config (fields.map (FieldDefinition.rename naming)) =
      (orderedFields config fields).map (FieldDefinition.rename naming) := by
  unfold orderedFields
  split
  · rfl
  · rw [List.filter_map, List.filter_map, List.map_append]
    rfl

section ClassModules

variable {entry : TypeOutline} {definition : ClassDefinition} {fields : List Declared}

theorem neededNames_rename (separated : outline.IsSeparatedBy naming)
    (own : outline.Knows definition.name) (base : ∀ name ∈ definition.base, outline.Knows name)
    (values : ∀ field ∈ fields, ∀ name ∈ field.valueNames, outline.Knows name) :
    neededNames (definition.rename naming) (fields.map (Declared.rename naming)) =
      (neededNames definition fields).map naming := by
  have names : (fields.map (Declared.rename naming)).flatMap (·.valueNames) ++
      (definition.base.map naming).toList =
        (fields.flatMap (·.valueNames) ++ definition.base.toList).map naming := by
    rw [List.map_append, List.flatMap_map, List.map_flatMap, Option.toList_map]
    simp only [Declared.valueNames_rename]
  have known (name : String)
      (occurs : name ∈ fields.flatMap (·.valueNames) ++ definition.base.toList) :
      outline.Knows name := by
    rcases List.mem_append.mp occurs with isValue | isBase
    · obtain ⟨field, isField, written⟩ := List.mem_flatMap.mp isValue
      exact values field isField name written
    · exact base name (Option.mem_toList.mp isBase)
  rw [neededNames, neededNames, ClassDefinition.rename, names,
    List.eraseDups_map_of_injOn (separated.mono known), List.filter_map]
  refine congrArg (List.map naming) (List.filter_congr fun name occurs => ?_)
  rw [Function.comp_apply, decide_eq_decide]
  exact (separated.ne_iff (known name (by simpa using occurs)) own)

theorem typeOnlyNames_rename (separated : outline.IsSeparatedBy naming)
    (own : outline.Knows definition.name) (closed : outline.ClosedClass definition)
    {needed : List String} (neededKnown : ∀ name ∈ needed, outline.Knows name) :
    typeOnlyNames (definition.rename naming) (needed.map naming) =
      (typeOnlyNames definition needed).map naming := by
  have names : ((definition.rename naming).fields.flatMap fun field => field.type.referencedNames) =
      (definition.fields.flatMap fun field => field.type.referencedNames).map naming := by
    rw [ClassDefinition.rename, List.flatMap_map, List.map_flatMap]
    simp only [FieldDefinition.rename, TypeExpr.referencedNames_rename]
  have known (name : String)
      (occurs : name ∈ definition.fields.flatMap fun field => field.type.referencedNames) :
      outline.Knows name := by
    obtain ⟨field, isField, written⟩ := List.mem_flatMap.mp occurs
    exact closed.fields field isField name written
  rw [typeOnlyNames, typeOnlyNames, names,
    List.eraseDups_map_of_injOn (separated.mono known), List.filter_map]
  refine congrArg (List.map naming) (List.filter_congr fun name occurs => ?_)
  have isKnown : outline.Knows name := known name (by simpa using occurs)
  have isNeeded : naming name ∈ needed.map naming ↔ name ∈ needed :=
    ⟨fun isImage => by
      obtain ⟨other, isOther, same⟩ := List.mem_map.mp isImage
      rwa [← separated (neededKnown other isOther) isKnown same],
    List.mem_map_of_mem⟩
  have isOwn := separated.eq_iff isKnown own
  rw [Function.comp_apply, ClassDefinition.rename, List.contains_eq_mem, List.contains_eq_mem,
    decide_eq_decide.mpr isNeeded, decide_eq_decide.mpr (not_congr isOwn)]

theorem importOf_rename (separated : outline.IsSeparatedBy naming) (package : Json) {name : String}
    (known : outline.Knows name) :
    importOf (outline.rename naming) package (naming name) = importOf outline package name := by
  rw [importOf, importOf, Outline.resolve?_rename separated known]
  cases outline.resolve? name <;> rfl

theorem importsOf_rename (separated : outline.IsSeparatedBy naming) (package : Json)
    {names : List String} (known : ∀ name ∈ names, outline.Knows name) :
    (names.map naming).mapM (importOf (outline.rename naming) package) =
      names.mapM (importOf outline package) :=
  mapM_map_congr fun name occurs => importOf_rename separated package (known name occurs)

def ClassModule.rename (naming : String → String) (module : ClassModule) : ClassModule :=
  { module with
    base := module.base.map (Part.rename naming)
    fields := module.fields.map (Declared.rename naming) }

theorem ClassModule.text_rename (naming : String → String) (module : ClassModule) :
    (module.rename naming).text = module.text := by
  have base : (module.base.map (Part.rename naming)).map Part.text = module.base.map Part.text := by
    rw [Option.map_map]
    exact congrArg (Option.map · _) (funext (Part.text_rename naming))
  have field (declared : Declared) : fieldText (declared.rename naming) = fieldText declared := by
    rw [fieldText, fieldText, Declared.declaration_rename]
    rfl
  simp only [text, textWith, rename, dataclassNames, typingNames, base, List.map_map, Function.comp_def,
    field, List.any_map, List.flatMap_map, List.isEmpty_map]
  rfl

theorem classModule_rename (separated : outline.IsSeparatedBy naming) (config : Config)
    (own : outline.Knows definition.name) (closed : outline.ClosedClass definition) :
    classModule (outline.rename naming) config (entry.rename naming) (definition.rename naming) =
      ClassModule.rename naming <$> classModule outline config entry definition := by
  have declares : (orderedFields config (definition.rename naming).fields).mapM
      (declareField (outline.rename naming)) =
        List.map (Declared.rename naming) <$>
          (orderedFields config definition.fields).mapM (declareField outline) := by
    rw [ClassDefinition.rename, orderedFields_rename]
    exact mapM_map_eq fun field occurs =>
      declareField_rename separated field (closed.fields field (mem_orderedFields.mp occurs))
  have bases : (definition.rename naming).base.map (Part.ofType (outline.rename naming)) =
      (definition.base.map (Part.ofType outline)).map (Part.rename naming) := by
    rw [ClassDefinition.rename]
    cases isBase : definition.base with
    | none => rfl
    | some base => exact congrArg some (Part.ofType_rename separated (closed.base base isBase))
  rw [classModule, classModule, declares]
  cases areDeclared : (orderedFields config definition.fields).mapM (declareField outline) with
  | error fault => rfl
  | ok fields =>
      have values (field : Declared) (occurs : field ∈ fields) (name : String)
          (written : name ∈ field.valueNames) : outline.Knows name := by
        obtain ⟨source, isSource, yields⟩ := (mem_of_mapM_eq_ok areDeclared).mp occurs
        exact closed.fields source (mem_orderedFields.mp isSource) name
          (valueNames_of_declareField yields written)
      have needed (name : String) (occurs : name ∈ neededNames definition fields) :
          outline.Knows name := by
        rcases (mem_neededNames.mp occurs).1 with ⟨field, isField, written⟩ | isBase
        · exact values field isField name written
        · exact closed.base name isBase
      have typeOnly (name : String)
          (occurs : name ∈ typeOnlyNames definition (neededNames definition fields)) :
          outline.Knows name := by
        obtain ⟨field, isField, written⟩ := (mem_typeOnlyNames.mp occurs).1
        exact closed.fields field isField name written
      have bindOk {α β : Type} (value : α) (next : α → Except Fault β) :
          (Except.ok value >>= next) = next value := rfl
      simp only [Except.map_ok, bindOk, neededNames_rename separated own closed.base values,
        typeOnlyNames_rename separated own closed needed]
      rw [importsOf_rename separated _ needed, importsOf_rename separated _ typeOnly]
      simp only [map_bind, map_pure, bases]
      rfl

theorem renderClass_rename (separated : outline.IsSeparatedBy naming) (config : Config)
    (own : outline.Knows definition.name) (closed : outline.ClosedClass definition) :
    renderClass (outline.rename naming) config (entry.rename naming) (definition.rename naming) =
      renderClass outline config entry definition := by
  rw [renderClass, renderClass, classModule_rename separated config own closed]
  simp only [bind_map_left, ClassModule.text_rename]

end ClassModules

theorem packageModule_rename (separated : outline.IsSeparatedBy naming) (package : Json) :
    packageModule (outline.rename naming) package = packageModule outline package := by
  have entries : (outline.rename naming).classesOf package ++
      (outline.rename naming).enumsOf package =
        (outline.classesOf package ++ outline.enumsOf package).map (TypeOutline.rename naming) := by
    rw [Outline.classesOf_rename, Outline.enumsOf_rename, List.map_append]
  have isEntry (entry : TypeOutline)
      (occurs : entry ∈ outline.classesOf package ++ outline.enumsOf package) :
      entry ∈ outline.entries :=
    List.mem_of_mem_filter ((perm_entriesOf outline package).mem_iff.mp occurs)
  have imports : ((outline.classesOf package ++ outline.enumsOf package).map
      (TypeOutline.rename naming)).mapM
        (fun entry => importOf (outline.rename naming) package entry.modelName) =
      (outline.classesOf package ++ outline.enumsOf package).mapM
        fun entry => importOf outline package entry.modelName := by
    refine mapM_map_congr fun entry occurs => ?_
    rw [TypeOutline.modelName_rename,
      importOf_rename separated package ⟨entry, isEntry entry occurs, rfl⟩]
  rw [packageModule, packageModule, entries, imports, List.map_map]
  rfl

/-- A file shows nothing of the names in the model. -/
theorem render_rename (separated : outline.IsSeparatedBy naming) (closed : outline.Closed)
    (config : Config) (file : GeneratedFile) :
    render (outline.rename naming) config file = render outline config file := by
  unfold render
  split
  · rw [renderPackage, renderPackage, packageModule_rename separated]
  · rename_i index isEntry
    rw [Outline.entries_rename, List.getElem?_map]
    cases atIndex : outline.entries[index]? with
    | none => rfl
    | some entry =>
        have occurs := List.mem_of_getElem? atIndex
        cases isTarget : entry.target with
        | ofClass definition =>
            have own : outline.Knows definition.name :=
              ⟨entry, occurs, by rw [TypeOutline.modelName, isTarget]; rfl⟩
            have same : renderClass (outline.rename naming) config (entry.rename naming)
                (definition.rename naming) = renderClass outline config entry definition :=
              renderClass_rename separated config own (closed entry occurs definition isTarget)
            simpa only [Option.map_some, TypeOutline.rename, TypeDefinition.rename, isTarget]
              using same
        | ofEnum definition =>
            simp only [Option.map_some, TypeOutline.rename, TypeDefinition.rename, isTarget]
            rfl

end Python

namespace CSharp

/-! ## C# -/

mutual

theorem typeText_rename (separated : outline.IsSeparatedBy naming) (type : TypeExpr)
    (known : ∀ name ∈ type.referencedNames, outline.Knows name) :
    typeText (outline.rename naming) (type.rename naming) = typeText outline type := by
  obtain ⟨kind, name, arguments, constant⟩ := type
  rw [TypeExpr.referencedNames] at known
  have ofArguments (other : String) (occurs : other ∈ TypeExpr.referencedNamesOfAll arguments) :=
    known other (List.mem_append_right _ occurs)
  rw [TypeExpr.rename]
  cases kind with
  | classRef =>
      simp only [true_or, if_true]
      rw [typeText, typeText, Outline.typeName_rename separated (known name (by simp))]
  | enumRef =>
      simp only [or_true, if_true]
      rw [typeText, typeText, Outline.typeName_rename separated (known name (by simp))]
  | array =>
      cases arguments with
      | nil => rw [TypeExpr.renameAll, typeText, typeText]
      | cons item rest =>
          have ofItem := typeText_rename separated item fun other occurs =>
            ofArguments other (List.mem_append_left _ occurs)
          rw [TypeExpr.renameAll, typeText, typeText, ofItem]
  | tuple =>
      have ofItems := typeTexts_rename separated arguments ofArguments
      match arguments with
      | [] => rw [TypeExpr.renameAll, typeText, typeText] <;> simp
      | [_] => rw [TypeExpr.renameAll, TypeExpr.renameAll, typeText, typeText] <;> simp
      | first :: second :: rest =>
          rw [TypeExpr.renameAll, TypeExpr.renameAll] at ofItems ⊢
          rw [typeText, typeText, ofItems]
  | optional =>
      cases arguments with
      | nil => rw [TypeExpr.renameAll, typeText, typeText]
      | cons inner rest =>
          have ofInner := typeText_rename separated inner fun other occurs =>
            ofArguments other (List.mem_append_left _ occurs)
          rw [TypeExpr.renameAll, typeText, typeText, ofInner]
  | primitive | union | literal | any =>
      simp only [reduceCtorEq, or_self, if_false]
      rw [typeText, typeText]

theorem typeTexts_rename (separated : outline.IsSeparatedBy naming) (types : List TypeExpr)
    (known : ∀ name ∈ TypeExpr.referencedNamesOfAll types, outline.Knows name) :
    typeTexts (outline.rename naming) (TypeExpr.renameAll naming types) =
      typeTexts outline types := by
  cases types with
  | nil => rw [TypeExpr.renameAll, typeTexts, typeTexts]
  | cons type rest =>
      rw [TypeExpr.referencedNamesOfAll] at known
      have ofType := typeText_rename separated type fun other occurs =>
        known other (List.mem_append_left _ occurs)
      have ofRest := typeTexts_rename separated rest fun other occurs =>
        known other (List.mem_append_right _ occurs)
      rw [TypeExpr.renameAll, typeTexts, typeTexts, ofType, ofRest]

end

theorem enumDefault_rename (separated : outline.IsSeparatedBy naming) {name : String}
    (known : outline.Knows name) (value : Json) :
    enumDefault (outline.rename naming) (naming name) value = enumDefault outline name value := by
  rw [enumDefault, enumDefault, Outline.resolve?_rename separated known]
  cases outline.resolve? name with
  | none => rfl
  | some entry =>
      obtain ⟨target, _, _, _, _⟩ := entry
      cases target <;> rfl

theorem defaultValue_rename (separated : outline.IsSeparatedBy naming) (value : Json)
    {type : TypeExpr} (known : ∀ name ∈ type.referencedNames, outline.Knows name) :
    defaultValue (outline.rename naming) value (type.rename naming) =
      defaultValue outline value type := by
  have ofEnum (isEnum : type.withoutOptional.kind = .enumRef) :
      outline.Knows type.withoutOptional.name :=
    known _ (Python.referencedNames_withoutOptional _ (Python.name_mem_referencedNames isEnum))
  simp only [defaultValue, TypeExpr.withoutOptional_rename, TypeExpr.kind_rename]
  generalize type.withoutOptional = inner at ofEnum
  by_cases isEnum : inner.kind = .enumRef
  · simp only [if_pos isEnum, TypeExpr.name_rename isEnum,
      enumDefault_rename separated (ofEnum isEnum)]
  · simp only [if_neg isEnum]
    by_cases isPrimitive : inner.kind = .primitive
    · rw [TypeExpr.name_rename_of_primitive isPrimitive]
    · simp [isPrimitive]

theorem declareProperty_rename (separated : outline.IsSeparatedBy naming) (entry : TypeOutline)
    (field : FieldDefinition) (known : ∀ name ∈ field.type.referencedNames, outline.Knows name) :
    declareProperty (outline.rename naming) (entry.rename naming) (field.rename naming) =
      declareProperty outline entry field := by
  have ofDefault (value : Json) := defaultValue_rename separated value known
  simp only [declareProperty, FieldDefinition.rename, TypeOutline.rename,
    typeText_rename separated field.type known, ofDefault]
  rfl

theorem foreignNamespaces_rename (separated : outline.IsSeparatedBy naming) (config : Config)
    (package : Json) {names : List String} (known : ∀ name ∈ names, outline.Knows name) :
    foreignNamespaces (outline.rename naming) config package (names.map naming) =
      foreignNamespaces outline config package names := by
  rw [foreignNamespaces, foreignNamespaces, List.filterMap_map]
  refine List.filterMap_congr fun name occurs => ?_
  rw [Function.comp_apply, Outline.resolve?_rename separated (known name occurs)]
  cases outline.resolve? name <;> rfl

theorem usings_rename (separated : outline.IsSeparatedBy naming) (config : Config)
    (package : Json) {names : List String} (known : ∀ name ∈ names, outline.Knows name) :
    usings (outline.rename naming) config package (names.map naming) =
      usings outline config package names := by
  simp only [usings, foreignNamespaces_rename separated config package known]

theorem renderClass_rename (separated : outline.IsSeparatedBy naming) (config : Config)
    (entry : TypeOutline) {definition : ClassDefinition}
    (closed : outline.ClosedClass definition) :
    renderClass (outline.rename naming) config (entry.rename naming) (definition.rename naming) =
      renderClass outline config entry definition := by
  have properties : (definition.fields.map (FieldDefinition.rename naming)).mapM
      (declareProperty (outline.rename naming) (entry.rename naming)) =
        definition.fields.mapM (declareProperty outline entry) :=
    mapM_map_congr fun field occurs =>
      declareProperty_rename separated entry field (closed.fields field occurs)
  have names : ((definition.rename naming).fields.flatMap fun field => field.type.referencedNames) ++
      (definition.rename naming).base.toList =
        ((definition.fields.flatMap fun field => field.type.referencedNames) ++
          definition.base.toList).map naming := by
    rw [ClassDefinition.rename, List.map_append, List.flatMap_map, List.map_flatMap,
      Option.toList_map]
    simp only [FieldDefinition.rename, TypeExpr.referencedNames_rename]
  have known (name : String)
      (occurs : name ∈ (definition.fields.flatMap fun field => field.type.referencedNames) ++
        definition.base.toList) : outline.Knows name := by
    rcases List.mem_append.mp occurs with isReferenced | isBase
    · obtain ⟨field, isField, written⟩ := List.mem_flatMap.mp isReferenced
      exact closed.fields field isField name written
    · exact closed.base name (Option.mem_toList.mp isBase)
  have header : classHeader (outline.rename naming) (entry.rename naming)
      (definition.rename naming) = classHeader outline entry definition := by
    simp only [classHeader, ClassDefinition.rename, TypeOutline.rename]
    cases isBase : definition.base with
    | none => rfl
    | some base =>
        simp only [Option.map_some, Outline.typeName_rename separated (closed.base base isBase)]
        rfl
  simp only [renderClass, names, header, usings_rename separated config _ known]
  rw [ClassDefinition.rename, properties]
  rfl

/-- A file shows nothing of the names in the model. -/
theorem render_rename (separated : outline.IsSeparatedBy naming) (closed : outline.Closed)
    (config : Config) (file : GeneratedFile) :
    render (outline.rename naming) config file = render outline config file := by
  unfold render
  split
  · rfl
  · rename_i index isEntry
    rw [Outline.entries_rename, List.getElem?_map]
    cases atIndex : outline.entries[index]? with
    | none => rfl
    | some entry =>
        cases isTarget : entry.target with
        | ofClass definition =>
            have same := renderClass_rename separated config entry
              (closed entry (List.mem_of_getElem? atIndex) definition isTarget)
            simpa only [Option.map_some, TypeOutline.rename, TypeDefinition.rename, isTarget]
              using same
        | ofEnum definition =>
            simp only [Option.map_some, TypeOutline.rename, TypeDefinition.rename, isTarget]
            rfl

end CSharp

namespace Signature

/-! ## Signatures -/

theorem fullName_rename (separated : outline.IsSeparatedBy naming) {name : String}
    (known : outline.Knows name) :
    fullName (outline.rename naming) (naming name) = fullName outline name := by
  rw [fullName, fullName, Outline.resolve?_rename separated known]
  obtain ⟨entry, isEntry, rfl⟩ := known
  obtain ⟨found, isFound⟩ := Outline.exists_resolve? isEntry
  rw [isFound]
  rfl

mutual

theorem typeText_rename (separated : outline.IsSeparatedBy naming) (type : TypeExpr)
    (known : ∀ name ∈ type.referencedNames, outline.Knows name) :
    typeText (outline.rename naming) (type.rename naming) = typeText outline type := by
  obtain ⟨kind, name, arguments, constant⟩ := type
  rw [TypeExpr.referencedNames] at known
  have ofArguments (other : String) (occurs : other ∈ TypeExpr.referencedNamesOfAll arguments) :=
    known other (List.mem_append_right _ occurs)
  rw [TypeExpr.rename]
  cases kind with
  | classRef =>
      simp only [true_or, if_true]
      rw [typeText, typeText, fullName_rename separated (known name (by simp))]
  | enumRef =>
      simp only [or_true, if_true]
      rw [typeText, typeText, fullName_rename separated (known name (by simp))]
  | array =>
      cases arguments with
      | nil => rw [TypeExpr.renameAll, typeText, typeText]
      | cons item rest =>
          have ofItem := typeText_rename separated item fun other occurs =>
            ofArguments other (List.mem_append_left _ occurs)
          rw [TypeExpr.renameAll, typeText, typeText, ofItem]
  | optional =>
      cases arguments with
      | nil => rw [TypeExpr.renameAll, typeText, typeText]
      | cons inner rest =>
          have ofInner := typeText_rename separated inner fun other occurs =>
            ofArguments other (List.mem_append_left _ occurs)
          rw [TypeExpr.renameAll, typeText, typeText, ofInner]
  | tuple | union =>
      rw [typeText, typeText, typeTexts_rename separated arguments ofArguments]
  | primitive | literal | any =>
      simp only [reduceCtorEq, or_self, if_false]
      rw [typeText, typeText]

theorem typeTexts_rename (separated : outline.IsSeparatedBy naming) (types : List TypeExpr)
    (known : ∀ name ∈ TypeExpr.referencedNamesOfAll types, outline.Knows name) :
    typeTexts (outline.rename naming) (TypeExpr.renameAll naming types) =
      typeTexts outline types := by
  cases types with
  | nil => rw [TypeExpr.renameAll, typeTexts, typeTexts]
  | cons type rest =>
      rw [TypeExpr.referencedNamesOfAll] at known
      have ofType := typeText_rename separated type fun other occurs =>
        known other (List.mem_append_left _ occurs)
      have ofRest := typeTexts_rename separated rest fun other occurs =>
        known other (List.mem_append_right _ occurs)
      rw [TypeExpr.renameAll, typeTexts, typeTexts, ofType, ofRest]

end

theorem entryText_rename (separated : outline.IsSeparatedBy naming) (closed : outline.Closed)
    {entry : TypeOutline} (isEntry : entry ∈ outline.entries) :
    entryText (outline.rename naming) (entry.rename naming) = entryText outline entry := by
  cases isTarget : entry.target with
  | ofClass definition =>
      have known := closed entry isEntry definition isTarget
      have fields : (definition.fields.map (FieldDefinition.rename naming)).mapM (fun field => do
          return line 2 ((← typeText (outline.rename naming) field.type) ++ " " ++ field.name ++
            ";")) =
          definition.fields.mapM fun field => do
            return line 2 ((← typeText outline field.type) ++ " " ++ field.name ++ ";") := by
        refine mapM_map_congr fun field occurs => ?_
        rw [FieldDefinition.rename, typeText_rename separated _ (known.fields field occurs)]
      simp only [entryText, TypeOutline.rename, TypeDefinition.rename, isTarget, classText,
        ClassDefinition.rename, fields]
      cases isBase : definition.base with
      | none => rfl
      | some base =>
          simp only [Option.map_some, fullName_rename separated (known.base base isBase)]
  | ofEnum definition =>
      simp only [entryText, TypeOutline.rename, TypeDefinition.rename, isTarget]
      rfl

theorem sortedBy_name_rename (naming : String → String) (entries : List TypeOutline) :
    Text.sortedBy TypeOutline.name (entries.map (TypeOutline.rename naming)) =
      (Text.sortedBy TypeOutline.name entries).map (TypeOutline.rename naming) :=
  (Text.map_sortedBy TypeOutline.name (TypeOutline.rename naming) entries).symm

theorem packagePieces_rename (separated : outline.IsSeparatedBy naming) (closed : outline.Closed)
    (package : Json) :
    packagePieces (outline.rename naming) package = packagePieces outline package := by
  simp only [packagePieces, Outline.classesOf_rename, Outline.enumsOf_rename,
    sortedBy_name_rename, ← List.map_append, List.map_map]
  refine congrArg (fun texts => _ :: texts ++ _) (List.map_congr_left fun entry occurs => ?_)
  exact entryText_rename separated closed (mem_entries_of_listed occurs)

/-- Signatures show nothing of the names in the model. -/
theorem pieces_rename (separated : outline.IsSeparatedBy naming) (closed : outline.Closed) :
    pieces (outline.rename naming) = pieces outline := by
  rw [pieces, pieces, Outline.packages_rename, funext (packagePieces_rename separated closed)]

end Signature

/-- Files and signatures show nothing of the names in the model. -/
theorem TargetLanguage.render_rename (language : TargetLanguage)
    (separated : outline.IsSeparatedBy naming) (closed : outline.Closed) (config : Config)
    (file : GeneratedFile) :
    language.render (outline.rename naming) config file = language.render outline config file := by
  cases language with
  | python => exact Python.render_rename separated closed config file
  | csharp => exact CSharp.render_rename separated closed config file

end Typeloom
