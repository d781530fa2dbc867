import Mathlib.Data.List.Forall2
import Mathlib.Data.List.Induction
import Typeloom.Proofs.Model.InheritanceCycles
import Typeloom.Proofs.Render.ClassFiles

/-!
# Dataclasses with positional parameters

A dataclass has the parameters of its base and those that its body adds, in this order; a parameter
that is declared again keeps its place.  No parameter that must be given may follow one that may be
left out.  Each module declares what must be given first, so that its own parameters are in order,
but what a class adds comes after all that it inherits.
-/

namespace Typeloom

namespace Python

/-! ## Bodies of dataclasses -/

/-- What is assigned to an attribute in the body of a dataclass. -/
inductive Assignment where
  /-- A value, or a field with a default value. -/
  | value
  /-- A field with a function that makes the default value. -/
  | factory
  /-- A field without a default value. -/
  | details
deriving DecidableEq, Repr

def Declared.assignment? (field : Declared) : Option Assignment :=
  match field.value with
  | none => none
  | some parts =>
      if field.usesField then
        match parts with
        | _ :: .plain "default_factory=lambda: " :: _ => some .factory
        | _ :: .plain "default=" :: _ => some .value
        | _ => some .details
      else some .value

/-- The names of the attributes that a module declares. -/
def ClassModule.attributes (module : ClassModule) : List String :=
  module.fields.map Declared.name

/-- The attributes that a module declares, in the order of their first declarations, each with what
is assigned to it last. -/
def ClassModule.body (module : ClassModule) : Table String (Option Assignment) :=
  module.fields.foldl
    (fun body field =>
      Table.set field.name (field.assignment?.or (Table.get? body field.name).join) body) []

/-! ## Parameters -/

/-- A parameter with which instances of a dataclass are made. -/
structure Parameter where
  isOptional : Bool
  /-- Whether the class has a value for the attribute, which the next declaration without a value
  takes over. -/
  hasValue : Bool
deriving DecidableEq, Repr

/-- The parameter for an attribute that is declared.  `visible` says whether the class has a value
for the attribute anyway. -/
def Parameter.declare (assignment? : Option Assignment) (visible : Bool) : Parameter :=
  match assignment? with
  | some .value => { isOptional := true, hasValue := true }
  | some .factory => { isOptional := true, hasValue := visible }
  | some .details => { isOptional := false, hasValue := visible }
  | none => { isOptional := visible, hasValue := visible }

section Parameters

variable (known : String → Bool) (inherited : Table String Parameter) (module : ClassModule)

/-- The parameters for the attributes that a module declares.  `known` says which attributes every
class has. -/
def declaredParameters : Table String Parameter :=
  module.body.map fun entry =>
    (entry.1, .declare entry.2
      (((Table.get? inherited entry.1).map Parameter.hasValue).getD (known entry.1)))

/-- The parameters of the class of a module with a base of given parameters. -/
def derive : Table String Parameter :=
  (declaredParameters known inherited module).foldl
    (fun table entry => Table.set entry.1 entry.2 table) inherited

/-- The inherited parameters as the module leaves them. -/
def retaken : Table String Parameter :=
  inherited.map fun entry =>
    (entry.1, (Table.get? (declaredParameters known inherited module) entry.1).getD entry.2)

/-- The parameters that the module adds. -/
def added : Table String Parameter :=
  (declaredParameters known inherited module).filter fun entry => entry.1 ∉ Table.keys inherited

end Parameters

/-- The parameters of the last class of a lineage, which is given by the modules of its classes. -/
def parameters (known : String → Bool) (modules : List ClassModule) : Table String Parameter :=
  modules.foldl (derive known) []

def SomeOptional (table : Table String Parameter) : Prop :=
  ∃ parameter ∈ Table.values table, parameter.isOptional = true

def AllOptional (table : Table String Parameter) : Prop :=
  ∀ parameter ∈ Table.values table, parameter.isOptional = true

/-- Whether no parameter that must be given follows one that may be left out. -/
def Positional (table : Table String Parameter) : Prop :=
  (Table.values table).Pairwise fun earlier later =>
    earlier.isOptional = true → later.isOptional = true

variable {known : String → Bool} {inherited : Table String Parameter} {module : ClassModule}
  {modules : List ClassModule}

theorem nodup_keys_body (module : ClassModule) : (Table.keys module.body).Nodup := by
  rw [ClassModule.body]
  exact List.foldlRecOn (motive := fun body => (Table.keys body).Nodup) module.fields _
    List.nodup_nil fun _ distinct _ _ => Table.nodup_keys_set distinct

theorem keys_declaredParameters :
    Table.keys (declaredParameters known inherited module) = Table.keys module.body := by
  simp [declaredParameters, Table.keys, Function.comp_def]

/-- What a class inherits keeps its place, and what it adds comes behind. -/
theorem derive_eq (distinct : (Table.keys inherited).Nodup) :
    derive known inherited module =
      retaken known inherited module ++ added known inherited module := by
  have differ : (Table.keys (declaredParameters known inherited module)).Nodup :=
    keys_declaredParameters ▸ nodup_keys_body module
  exact Table.foldl_set_eq distinct differ

theorem nodup_keys_derive (distinct : (Table.keys inherited).Nodup) :
    (Table.keys (derive known inherited module)).Nodup :=
  List.foldlRecOn (motive := fun table => (Table.keys table).Nodup) _ _ distinct
    fun _ distinct _ _ => Table.nodup_keys_set distinct

theorem nodup_keys_parameters (known : String → Bool) (modules : List ClassModule) :
    (Table.keys (parameters known modules)).Nodup :=
  List.foldlRecOn (motive := fun table => (Table.keys table).Nodup) modules _ List.nodup_nil
    fun _ distinct _ _ => nodup_keys_derive distinct

theorem parameters_append_singleton (front : List ClassModule) :
    parameters known (front ++ [module]) = derive known (parameters known front) module := by
  rw [parameters, parameters, List.foldl_append]
  rfl

theorem positional_append_iff {first second : Table String Parameter} :
    Positional (first ++ second) ↔
      Positional first ∧ Positional second ∧ (SomeOptional first → AllOptional second) := by
  rw [Positional, Table.values, List.map_append, List.pairwise_append]
  refine and_congr_right fun _ => and_congr_right fun _ => ?_
  constructor
  · rintro apart ⟨parameter, occurs, isOptional⟩ later isLater
    exact apart parameter occurs later isLater isOptional
  · intro apart parameter occurs later isLater isOptional
    exact apart ⟨parameter, occurs, isOptional⟩ later isLater

/-! ## Different attributes -/

theorem body_of_nodup (distinct : module.attributes.Nodup) :
    module.body = module.fields.map fun field => (field.name, field.assignment?) := by
  rw [ClassModule.body]
  rw [ClassModule.attributes] at distinct
  generalize module.fields = fields at distinct
  induction fields using List.reverseRecOn with
  | nil => rfl
  | append_singleton front field ih =>
      rw [List.map_append, List.map_singleton] at distinct
      have isNew : field.name ∉
          Table.keys (front.map fun field => (field.name, field.assignment?)) := by
        have apart := (List.nodup_append.mp distinct).2.2
        simpa [Table.keys] using fun other occurs same =>
          apart other.name (List.mem_map_of_mem occurs) field.name (by simp) same
      rw [List.foldl_append, ih (List.Nodup.of_append_left distinct), List.foldl_cons,
        List.foldl_nil, Table.get?_eq_none_iff.mpr isNew, Table.set_of_not_contains _ isNew,
        List.map_append]
      simp

/-- The parameter for the declaration of an attribute that no class has. -/
def Declared.parameter (field : Declared) : String × Parameter :=
  (field.name, .declare field.assignment? false)

theorem keys_map_parameter (fields : List Declared) :
    Table.keys (fields.map Declared.parameter) = fields.map Declared.name := by
  simp [Table.keys, Declared.parameter, Function.comp_def]

theorem declaredParameters_of_nodup (distinct : module.attributes.Nodup)
    (unknown : ∀ name ∈ module.attributes, name ∉ Table.keys inherited ∧ known name = false) :
    declaredParameters known inherited module = module.fields.map Declared.parameter := by
  rw [declaredParameters, body_of_nodup distinct, List.map_map]
  refine List.map_congr_left fun field isField => ?_
  obtain ⟨isNew, isUnknown⟩ := unknown field.name (List.mem_map_of_mem isField)
  simp [Declared.parameter, Table.get?_eq_none_iff.mpr isNew, isUnknown]

theorem added_of_nodup (distinct : module.attributes.Nodup)
    (unknown : ∀ name ∈ module.attributes, known name = false) :
    added known inherited module =
      (module.fields.filter fun field => field.name ∉ Table.keys inherited).map
        Declared.parameter := by
  rw [added, declaredParameters, body_of_nodup distinct, List.map_map, List.filter_map]
  refine List.map_congr_left fun field occurs => ?_
  obtain ⟨isField, isNew⟩ := List.mem_filter.mp occurs
  have isNew : field.name ∉ Table.keys inherited := by simpa using isNew
  have isUnknown := unknown field.name (List.mem_map_of_mem isField)
  simp [Declared.parameter, Table.get?_eq_none_iff.mpr isNew, isUnknown]

/-- If no attribute is declared twice and no class has one of them anyway, then the parameters are
those of the modules, one module after the other. -/
theorem parameters_of_nodup (distinct : (modules.flatMap ClassModule.attributes).Nodup)
    (unknown : ∀ name ∈ modules.flatMap ClassModule.attributes, known name = false) :
    parameters known modules =
      modules.flatMap fun module => module.fields.map Declared.parameter := by
  induction modules using List.reverseRecOn with
  | nil => rfl
  | append_singleton front module ih =>
      simp only [List.flatMap_append, List.flatMap_singleton] at distinct unknown ⊢
      obtain ⟨ofFront, ofModule, apart⟩ := List.nodup_append.mp distinct
      obtain ⟨unknownFront, unknownModule⟩ := List.forall_mem_append.mp unknown
      have keys : Table.keys (front.flatMap fun module => module.fields.map Declared.parameter) =
          front.flatMap ClassModule.attributes := by
        rw [Table.keys, List.map_flatMap]
        exact List.flatMap_congr fun module _ => keys_map_parameter module.fields
      rw [parameters_append_singleton, ih ofFront unknownFront, derive,
        declaredParameters_of_nodup ofModule]
      · refine Table.foldl_set_of_nodup ?_
        have keysToo := keys_map_parameter module.fields
        rw [Table.keys] at keys keysToo ⊢
        rwa [List.map_append, keys, keysToo]
      · intro name isName
        refine ⟨fun isKnown => ?_, unknownModule name isName⟩
        rw [keys] at isKnown
        exact apart name isKnown name isName rfl

/-! ## Fields that must be given -/

theorem isSome_fieldDefault (outline : Outline) (field : FieldDefinition) :
    (fieldDefault outline field).1.isSome = !isMandatory field := by
  unfold fieldDefault isMandatory
  cases field.default? with
  | none => cases field.required <;> rfl
  | some value =>
      dsimp only
      split <;> simp

/-- What is written for the property name is no default value. -/
theorem metadata_ne (text : String) (noMetadata : text.toList.head? ≠ some 'm') (name : String) :
    "metadata=\x7b\"json_name\": " ++ Json.quote name ++ "\x7d" ≠ text := by
  rintro rfl
  simp at noMetadata

/-- A declaration assigns a default value just if there is one. -/
theorem isOptional_fieldValue {name : String} {value : Option (List Part)} {needsFactory : Bool}
    {declared : Declared} (isValue : declared.value = (fieldValue name value needsFactory).1)
    (uses : declared.usesField = (fieldValue name value needsFactory).2) :
    declared.parameter.2.isOptional = value.isSome := by
  have noFactory := metadata_ne "default_factory=lambda: " (by decide) name
  have noDefault := metadata_ne "default=" (by decide) name
  unfold fieldValue at isValue uses
  dsimp only at isValue uses
  split at isValue
  · rename_i isPlain
    rw [if_pos isPlain] at uses
    cases value <;>
      simp [Declared.parameter, Declared.assignment?, isValue, uses, Parameter.declare]
  · rename_i noPlain
    rw [if_neg noPlain] at uses
    cases value with
    | none =>
        by_cases renamed : Naming.attributeName name = name <;>
          simp [Declared.parameter, Declared.assignment?, isValue, uses, Parameter.declare, renamed,
            noFactory, noDefault]
    | some parts =>
        by_cases renamed : Naming.attributeName name = name <;> cases needsFactory <;>
          simp [Declared.parameter, Declared.assignment?, isValue, uses, Parameter.declare, renamed]

/-- A parameter may be left out just if the field need not be given. -/
theorem isOptional_parameter {outline : Outline} {field : FieldDefinition} {declared : Declared}
    (declares : declareField outline field = .ok declared) :
    declared.parameter.2.isOptional = !isMandatory field := by
  obtain ⟨type, -, last⟩ := exists_of_bind_eq_ok declares
  rw [← isSome_fieldDefault outline field]
  cases last
  exact isOptional_fieldValue rfl rfl

theorem isOptional_parameters {outline : Outline} {config : Config} {entry : TypeOutline}
    {definition : ClassDefinition}
    (isModule : classModule outline config entry definition = .ok module) :
    (module.fields.map fun field => field.parameter.2.isOptional) =
      (orderedFields config definition.fields).map fun field => !isMandatory field :=
  map_of_mapM_eq_ok (fun _ _ declares => isOptional_parameter declares)
    (classModule_inversion isModule).1

theorem pairwise_orderedFields {config : Config} (positional : config.pythonKwOnly.isTruthy = false)
    (fields : List FieldDefinition) :
    ((orderedFields config fields).map fun field => !isMandatory field).Pairwise
      fun earlier later => earlier = true → later = true := by
  rw [orderedFields, positional, if_neg Bool.false_ne_true, List.map_append, List.pairwise_append]
  have ofFront : ∀ flag ∈ (fields.filter isMandatory).map fun field => !isMandatory field,
      flag = false := by
    simp +contextual
  have ofBack : ∀ flag ∈ (fields.filter fun field => !isMandatory field).map
      fun field => !isMandatory field, flag = true := by
    simp +contextual
  refine ⟨?_, ?_, fun earlier _ later isLater _ => ofBack later isLater⟩
  · exact List.pairwise_of_forall_mem_list fun earlier isEarlier _ _ isOptional =>
      absurd isOptional (Bool.eq_false_iff.mp (ofFront earlier isEarlier))
  · exact List.pairwise_of_forall_mem_list fun _ _ later isLater _ => ofBack later isLater

/-- A module declares first what must be given. -/
theorem pairwise_fields {outline : Outline} {config : Config} {entry : TypeOutline}
    {definition : ClassDefinition}
    (isModule : classModule outline config entry definition = .ok module)
    (positional : config.pythonKwOnly.isTruthy = false) :
    module.fields.Pairwise fun earlier later =>
      earlier.parameter.2.isOptional = true → later.parameter.2.isOptional = true := by
  have inOrder : (module.fields.map fun field => field.parameter.2.isOptional).Pairwise
      fun earlier later => earlier = true → later = true := by
    rw [isOptional_parameters isModule]
    exact pairwise_orderedFields positional definition.fields
  exact List.pairwise_map.mp inOrder

/-! ## Classes and their bases -/

/-- The names of the attributes for the fields of a class. -/
def attributes (definition : ClassDefinition) : List String :=
  definition.fields.map fun field => Naming.attributeName field.name

/-- Whether a class has a field that need not be given. -/
def HasOptional (definition : ClassDefinition) : Prop :=
  ∃ field ∈ definition.fields, isMandatory field = false

/-- Whether a class has a field that must be given. -/
def HasMandatory (definition : ClassDefinition) : Prop :=
  ∃ field ∈ definition.fields, isMandatory field = true

/-- Whether a module is the one that is rendered for a class. -/
def RendersClass (settings : GenerationSettings) (code : GeneratedCode)
    (definition : ClassDefinition) (module : ClassModule) : Prop :=
  ∃ entry index, code.GeneratesClass definition entry index ∧
    classModule code.outline settings.config entry definition = .ok module ∧
    module.base = definition.base.map (Part.ofType code.outline) ∧
    ∀ file : GeneratedFile, file.content = .entry index → code.render settings file = module.text

section Rendered

variable {settings : GenerationSettings} {code : GeneratedCode} {definition : ClassDefinition}
  {line : List ClassDefinition}

theorem perm_attributes (renders : RendersClass settings code definition module) :
    module.attributes.Perm (attributes definition) := by
  obtain ⟨entry, index, -, isModule, -⟩ := renders
  rw [ClassModule.attributes, names_of_classModule isModule]
  exact (perm_orderedFields settings.config definition.fields).map _

theorem perm_flatMap_attributes (renders : List.Forall₂ (RendersClass settings code) line modules) :
    (modules.flatMap ClassModule.attributes).Perm (line.flatMap attributes) := by
  induction renders with
  | nil => exact .refl _
  | cons renders _ ih => exact (perm_attributes renders).append ih

theorem isOptional_flatMap (renders : List.Forall₂ (RendersClass settings code) line modules) :
    (modules.flatMap fun module =>
        module.fields.map fun field => field.parameter.2.isOptional) =
      line.flatMap fun definition =>
        (orderedFields settings.config definition.fields).map fun field => !isMandatory field := by
  induction renders with
  | nil => rfl
  | cons renders _ ih =>
      obtain ⟨entry, index, -, isModule, -⟩ := renders
      rw [List.flatMap_cons, List.flatMap_cons, ih, isOptional_parameters isModule]

/-- What a module adds is in order by itself, so that it only must not follow an inherited parameter
that may be left out. -/
theorem positional_derive_iff (renders : RendersClass settings code definition module)
    (positional : settings.config.pythonKwOnly.isTruthy = false)
    (distinctKeys : (Table.keys inherited).Nodup) (distinct : (attributes definition).Nodup)
    (unknown : ∀ name ∈ attributes definition, known name = false) :
    Positional (derive known inherited module) ↔
      Positional (retaken known inherited module) ∧
        (SomeOptional (retaken known inherited module) →
          AllOptional (added known inherited module)) := by
  have same := perm_attributes renders
  obtain ⟨entry, index, -, isModule, -⟩ := renders
  have isPositional : Positional (added known inherited module) := by
    rw [added_of_nodup (same.nodup_iff.mpr distinct) fun name isName =>
        unknown name (same.mem_iff.mp isName),
      Positional, Table.values, List.map_map, List.pairwise_map]
    exact (pairwise_fields isModule positional).filter _
  rw [derive_eq distinctKeys, positional_append_iff, and_iff_right isPositional]

/-- If no attribute is declared twice, then no class below one with a field that need not be given
may have a field that must be given, and that is enough. -/
theorem positional_parameters_iff
    (renders : List.Forall₂ (RendersClass settings code) line modules)
    (positional : settings.config.pythonKwOnly.isTruthy = false)
    (distinct : (line.flatMap attributes).Nodup)
    (unknown : ∀ name ∈ line.flatMap attributes, known name = false) :
    Positional (parameters known modules) ↔
      line.Pairwise fun upper lower => HasOptional upper → ¬HasMandatory lower := by
  have same := perm_flatMap_attributes renders
  have flags : (Table.values (parameters known modules)).map Parameter.isOptional =
      line.flatMap fun definition =>
        (orderedFields settings.config definition.fields).map fun field => !isMandatory field := by
    rw [parameters_of_nodup (same.nodup_iff.mpr distinct) fun name isName =>
        unknown name (same.mem_iff.mp isName),
      Table.values, List.map_map, List.map_flatMap, ← isOptional_flatMap renders]
    simp [Function.comp_def]
  have ofFlags : Positional (parameters known modules) ↔
      ((Table.values (parameters known modules)).map Parameter.isOptional).Pairwise
        fun earlier later => earlier = true → later = true := by
    rw [Positional, List.pairwise_map]
  rw [ofFlags, flags, List.pairwise_flatMap]
  refine (and_iff_right fun (definition : ClassDefinition) _ =>
    pairwise_orderedFields positional definition.fields).trans ?_
  refine List.Pairwise.iff fun {upper lower} => ?_
  simp only [List.forall_mem_map, (perm_orderedFields settings.config _).mem_iff,
    Bool.not_eq_true', HasOptional, HasMandatory]
  constructor
  · rintro apart ⟨field, isField, isOptional⟩ ⟨other, isOther, mustBeGiven⟩
    exact absurd (apart field isField other isOther isOptional) (by simp [mustBeGiven])
  · intro apart field isField other isOther isOptional
    exact Bool.eq_false_iff.mpr fun mustBeGiven =>
      apart ⟨field, isField, isOptional⟩ ⟨other, isOther, mustBeGiven⟩

/-- Each class of a coherent model has a module. -/
theorem exists_rendersClass {model : Model} (isPython : settings.language = .python)
    (coherent : model.Coherent)
    (targets : (code.outline.entries.map TypeOutline.target).Perm model.definitions)
    (isClass : definition ∈ model.classes) :
    ∃ module, RendersClass settings code definition module := by
  obtain ⟨entry, index, generates⟩ := GeneratedCode.exists_generatesClass targets isClass
  obtain ⟨module, isModule⟩ :=
    exists_classModule_of_coherent coherent targets isClass settings.config entry
  exact ⟨module, entry, index, generates, isModule, (classModule_inversion isModule).2.1,
    fun _ holds => render_class isPython generates isModule holds⟩

theorem exists_rendersClasses {model : Model} (isPython : settings.language = .python)
    (coherent : model.Coherent)
    (targets : (code.outline.entries.map TypeOutline.target).Perm model.definitions)
    (areClasses : ∀ definition ∈ line, definition ∈ model.classes) :
    ∃ modules, List.Forall₂ (RendersClass settings code) line modules := by
  induction line with
  | nil => exact ⟨[], .nil⟩
  | cons definition rest ih =>
      obtain ⟨isClass, areRest⟩ := List.forall_mem_cons.mp areClasses
      obtain ⟨module, renders⟩ := exists_rendersClass isPython coherent targets isClass
      obtain ⟨modules, rendersRest⟩ := ih areRest
      exact ⟨module :: modules, .cons renders rendersRest⟩

end Rendered

/-! ## Generated code -/

/-- A class of a loaded model has a lineage, and each class of it has a module, with a file for it
if all packages are texts.  What the class adds comes behind what it inherits, so that its
parameters are in order just if the inherited ones are, as they are declared again, and all that it
adds may be left out in case one of them may.  If no attribute is declared twice, then no class
below one with a field that need not be given may have a field that must be given. -/
theorem positional_of_generate {read : String → Except Fault (List UInt8)}
    {directory sources : List String} {request : Except Fault Analysis.Request}
    {channel after before between : Channel} {model : Model} {settings : GenerationSettings}
    {extensions : List Extension} {code : GeneratedCode}
    (loads : (Loading.loadModel read directory sources request).onChannel before =
      (.ok (some model), between))
    (isPython : settings.language = .python)
    (positional : settings.config.pythonKwOnly.isTruthy = false)
    (keep : ∀ extension ∈ extensions, extension.KeepsTypes)
    (generates : (GeneratedCode.generate settings extensions model).onChannel channel =
      (.ok (some code), after))
    {definition : ClassDefinition} (isClass : definition ∈ model.classes)
    (known : String → Bool) :
    ((∀ target ∈ model.definitions, target.HasPackageText) → code.HasFiles) ∧
    ∃ inherited front module,
      Lineage model.classes definition.name (inherited ++ [definition]) ∧
      List.Forall₂ (RendersClass settings code) inherited front ∧
      RendersClass settings code definition module ∧
      ((attributes definition).Nodup → (∀ name ∈ attributes definition, known name = false) →
        (Positional (parameters known (front ++ [module])) ↔
          Positional (retaken known (parameters known front) module) ∧
            (SomeOptional (retaken known (parameters known front) module) →
              AllOptional (added known (parameters known front) module)))) ∧
      (((inherited ++ [definition]).flatMap attributes).Nodup →
        (∀ name ∈ (inherited ++ [definition]).flatMap attributes, known name = false) →
        (Positional (parameters known (front ++ [module])) ↔
          (inherited ++ [definition]).Pairwise fun upper lower =>
            HasOptional upper → ¬HasMandatory lower)) := by
  have coherent := Loading.coherent_of_loadModel loads
  have targets := GeneratedCode.targets_of_generate keep generates
  obtain ⟨inherited, lineage⟩ := Loading.exists_lineage_of_loadModel loads definition isClass
  obtain ⟨areClasses, -⟩ := List.forall_mem_append.mp lineage.forall_mem_classes
  obtain ⟨front, rendersFront⟩ :=
    exists_rendersClasses isPython coherent targets areClasses
  obtain ⟨module, renders⟩ := exists_rendersClass isPython coherent targets isClass
  refine ⟨fun haveTexts => GeneratedCode.hasFiles_of_generate haveTexts keep generates, inherited,
    front, module, lineage, rendersFront, renders, fun distinct unknown => ?_,
    positional_parameters_iff (List.rel_append rendersFront (.cons renders .nil)) positional⟩
  rw [parameters_append_singleton]
  exact positional_derive_iff renders positional (nodup_keys_parameters known front) distinct
    unknown

/-! ## A mandatory field below an optional one -/

/-- The definitions of a class with a field that need not be given, and of one below it with a field
that must be given. -/
def mandatoryBelow : Json.Members :=
  [("definitions", .object
    [("Base", .object [("properties", .object [("a", .object [("type", .text "string")])])]),
     ("Derived", .object
      [("allOf", .array
        [.object [("$ref", .text "#/definitions/Base")],
         .object
          [("properties", .object [("b", .object [("type", .text "string")])]),
           ("required", .array [.text "b"])]])])])]

/-- A document with these definitions. -/
def readMandatoryBelow (_ : String) : Except Fault (List UInt8) :=
  .ok ("\x7b\"definitions\": \x7b" ++
    "\"Base\": \x7b\"properties\": \x7b\"a\": \x7b\"type\": \"string\"\x7d\x7d\x7d, " ++
    "\"Derived\": \x7b\"allOf\": [\x7b\"$ref\": \"#/definitions/Base\"\x7d, " ++
      "\x7b\"properties\": \x7b\"b\": \x7b\"type\": \"string\"\x7d\x7d, " ++
      "\"required\": [\"b\"]\x7d]\x7d\x7d\x7d").toUTF8.toList

/-- Settings for dataclasses whose parameters are positional. -/
def positionalSettings : GenerationSettings where
  config := { pythonKwOnly := .bool false }

/-- The names of a class, of its base and of its attributes, and whether these must be given. -/
def outset (definition : ClassDefinition) : String × Option String × List (String × Bool) :=
  (definition.name, definition.base,
    definition.fields.map fun field => (Naming.attributeName field.name, isMandatory field))

theorem loads_mandatoryBelow : ∃ model between code after,
    (Loading.loadModel readMandatoryBelow [] ["file:///a"] (.ok {})).onChannel {} =
        (.ok (some model), between) ∧
      (GeneratedCode.generate positionalSettings [] model).onChannel {} =
        (.ok (some code), after) ∧
      model.classes.map outset =
        [("Base", none, [("a", false)]), ("Derived", some "Base", [("b", true)])] := by
  have isRead : Forest.members? readMandatoryBelow "file:///a" = some mandatoryBelow := by
    decide +kernel
  have alone : Forest.externalReferences (.object mandatoryBelow) = [] := by decide +kernel
  have loads : ∃ model between,
      (Loading.loadModel readMandatoryBelow [] ["file:///a"] (.ok {})).onChannel {} =
          (.ok (some model), between) ∧
        (decide (model.classes.map outset =
            [("Base", none, [("a", false)]), ("Derived", some "Base", [("b", true)])]),
          ((GeneratedCode.generate positionalSettings [] model).onChannel
            {}).1.toOption.join.map fun code => code.outline.entries.length) =
          (true, some 2) := by
    apply Reporting.exists_onChannel_eq_some
    rw [Loading.loadModel, Reporting.onChannel_bind, Loading.onChannel_alone isRead alone]
    decide +kernel
  obtain ⟨model, between, loads, views⟩ := loads
  obtain ⟨classes, entries⟩ := Prod.mk.inj views
  obtain ⟨code, after, generates, -⟩ := Reporting.exists_onChannel_eq_some entries
  exact ⟨model, between, code, after, loads, generates, of_decide_eq_true classes⟩

/-- Both classes are generated, and the lower one has the other one as its base. -/
theorem generates_mandatoryBelow : ∃ model between code after base derived,
    (Loading.loadModel readMandatoryBelow [] ["file:///a"] (.ok {})).onChannel {} =
        (.ok (some model), between) ∧
      (GeneratedCode.generate positionalSettings [] model).onChannel {} =
        (.ok (some code), after) ∧
      Lineage model.classes derived.name [base, derived] ∧
      [base, derived].flatMap attributes = ["a", "b"] ∧
      HasOptional base ∧ HasMandatory derived := by
  obtain ⟨model, between, code, after, loads, generates, classes⟩ := loads_mandatoryBelow
  obtain ⟨base, rest, areClasses, ofBase, others⟩ := List.map_eq_cons_iff.mp classes
  obtain ⟨derived, rfl, ofDerived⟩ := List.map_eq_singleton_iff.mp others
  obtain ⟨baseName, baseFree⟩ := Prod.mk.inj ofBase
  obtain ⟨underived, baseFields⟩ := Prod.mk.inj baseFree
  obtain ⟨-, derivedFrom⟩ := Prod.mk.inj ofDerived
  obtain ⟨derives, derivedFields⟩ := Prod.mk.inj derivedFrom
  obtain ⟨a, fieldsOfBase, ofA⟩ := List.map_eq_singleton_iff.mp baseFields
  obtain ⟨b, fieldsOfDerived, ofB⟩ := List.map_eq_singleton_iff.mp derivedFields
  have isBase : base ∈ model.classes := by simp [areClasses]
  have isDerived : derived ∈ model.classes := by simp [areClasses]
  have further : Lineage model.classes "Base" [base] := baseName ▸ .root isBase underived
  refine ⟨model, between, code, after, base, derived, loads, generates,
    .derived isDerived derives further, ?_,
    ⟨a, by simp [fieldsOfBase], (Prod.mk.inj ofA).2⟩,
    ⟨b, by simp [fieldsOfDerived], (Prod.mk.inj ofB).2⟩⟩
  simp [attributes, fieldsOfBase, fieldsOfDerived, (Prod.mk.inj ofA).1, (Prod.mk.inj ofB).1]

theorem positional_mandatoryBelow : ∃ model between code after base derived,
    (Loading.loadModel readMandatoryBelow [] ["file:///a"] (.ok {})).onChannel {} =
        (.ok (some model), between) ∧
      (GeneratedCode.generate positionalSettings [] model).onChannel {} =
        (.ok (some code), after) ∧
      derived ∈ model.classes ∧ ∃ front module,
        List.Forall₂ (RendersClass positionalSettings code) [base, derived] (front ++ [module]) ∧
        (Positional (parameters (fun _ => false) (front ++ [module])) ↔
          [base, derived].Pairwise fun upper lower => HasOptional upper → ¬HasMandatory lower) := by
  obtain ⟨model, between, code, after, base, derived, loads, generates, lineage, names, -⟩ :=
    generates_mandatoryBelow
  have isClass : derived ∈ model.classes := lineage.forall_mem_classes derived (by simp)
  obtain ⟨-, inherited, front, module, another, rendersFront, renders, -, inOrder⟩ :=
    positional_of_generate loads rfl rfl (List.forall_mem_nil _) generates isClass fun _ => false
  have same : [base, derived] = inherited ++ [derived] :=
    lineage.unique (Loading.coherent_of_loadModel loads).nodup_classes another
  rw [← same] at inOrder
  exact ⟨model, between, code, after, base, derived, loads, generates, isClass, front, module,
    same ▸ List.rel_append rendersFront (.cons renders .nil),
    inOrder (names ▸ by decide) fun _ _ => rfl⟩

/-- A parameter that must be given follows one that may be left out. -/
theorem not_positional_mandatoryBelow : ∃ model between code after definition line modules,
    (Loading.loadModel readMandatoryBelow [] ["file:///a"] (.ok {})).onChannel {} =
        (.ok (some model), between) ∧
      (GeneratedCode.generate positionalSettings [] model).onChannel {} =
        (.ok (some code), after) ∧
      definition ∈ model.classes ∧ Lineage model.classes definition.name line ∧
      List.Forall₂ (RendersClass positionalSettings code) line modules ∧
      ¬Positional (parameters (fun _ => false) modules) := by
  obtain ⟨model, between, code, after, base, derived, loads, generates, lineage, names, isOptional,
    isMandatory⟩ := generates_mandatoryBelow
  have isClass : derived ∈ model.classes := lineage.forall_mem_classes derived (by simp)
  have isPython : positionalSettings.language = .python := rfl
  obtain ⟨modules, renders⟩ := exists_rendersClasses isPython
    (Loading.coherent_of_loadModel loads)
    (GeneratedCode.targets_of_generate (List.forall_mem_nil _) generates) lineage.forall_mem_classes
  refine ⟨model, between, code, after, derived, [base, derived], modules, loads, generates, isClass,
    lineage, renders, fun inOrder => ?_⟩
  have apart :=
    (positional_parameters_iff renders rfl (names ▸ by decide) fun _ _ => rfl).mp inOrder
  exact List.rel_of_pairwise_cons apart (by simp) isOptional isMandatory

end Python

end Typeloom
