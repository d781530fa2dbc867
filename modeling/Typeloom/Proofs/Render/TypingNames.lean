import Typeloom.Proofs.Failing
import Typeloom.Proofs.Render.Renaming
import Typeloom.Proofs.Render.TypeTexts

/-!
# Names of the typing module

The module of a class imports from the typing module the names that it writes: that of literals if
there is a literal in a type, that of the type of everything if it is in one, and that of the check
for type checkers if it has imports for these only.  The renderer notes the names while it
translates types, and keeps its notes from one file to the next one.  They are taken anew for each
class, so that no text depends on what was rendered before.
-/

namespace Typeloom

/-- Whether a part of a type, at any depth, is of a kind. -/
def TypeExpr.Contains (type : TypeExpr) (kind : TypeKind) : Prop :=
  ∃ part : TypeExpr, part.Occurs type ∧ part.kind = kind

theorem TypeExpr.contains_iff {type : TypeExpr} {kind : TypeKind} :
    type.Contains kind ↔
      type.kind = kind ∨ ∃ argument ∈ type.arguments, argument.Contains kind := by
  constructor
  · rintro ⟨part, occurs, isKind⟩
    cases occurs with
    | self => exact Or.inl isKind
    | argument isArgument occurs => exact Or.inr ⟨_, isArgument, part, occurs, isKind⟩
  · rintro (isKind | ⟨argument, isArgument, part, occurs, isKind⟩)
    · exact ⟨type, .self, isKind⟩
    · exact ⟨part, .argument isArgument occurs, isKind⟩

theorem TypeExpr.contains_leaf {type : TypeExpr} (isLeaf : type.arguments = [])
    {kind : TypeKind} : type.Contains kind ↔ type.kind = kind := by
  rw [contains_iff]
  simp [isLeaf]

namespace Python

variable {outline : Outline}

/-! ## What types need -/

theorem typeTexts_eq_mapM (outline : Outline) (types : List TypeExpr) :
    typeTexts outline types = types.mapM (typeText outline) := by
  induction types with
  | nil => rw [typeTexts]; rfl
  | cons first rest ih => rw [typeTexts, List.mapM_cons, ih]

/-- What has to be imported for a type. -/
def Needs (type : TypeExpr) (name : String) : Prop :=
  name = "Literal" ∧ type.Contains .literal ∨ name = "Any" ∧ type.Contains .any

theorem needs_iff_of_arguments {type : TypeExpr} (notLiteral : type.kind ≠ .literal)
    (notAny : type.kind ≠ .any) {name : String} :
    Needs type name ↔ ∃ argument ∈ type.arguments, Needs argument name := by
  simp only [Needs, @TypeExpr.contains_iff type, notLiteral, notAny, false_or]
  constructor
  · rintro (⟨isName, argument, isArgument, contains⟩ | ⟨isName, argument, isArgument, contains⟩)
    · exact ⟨argument, isArgument, Or.inl ⟨isName, contains⟩⟩
    · exact ⟨argument, isArgument, Or.inr ⟨isName, contains⟩⟩
  · rintro ⟨argument, isArgument, ⟨isName, contains⟩ | ⟨isName, contains⟩⟩
    · exact Or.inl ⟨isName, argument, isArgument, contains⟩
    · exact Or.inr ⟨isName, argument, isArgument, contains⟩

theorem mem_imports_join {types : List TypeExpr} {texts : List TypeText}
    (areTexts : typeTexts outline types = .ok texts) {name : String}
    (ofTypes : ∀ type ∈ types, ∀ text, typeText outline type = .ok text →
      (name ∈ text.imports ↔ Needs type name)) :
    name ∈ texts.flatMap TypeText.imports ↔ ∃ type ∈ types, Needs type name := by
  rw [typeTexts_eq_mapM] at areTexts
  rw [List.mem_flatMap]
  constructor
  · rintro ⟨text, isText, imported⟩
    obtain ⟨type, isType, yields⟩ := (mem_of_mapM_eq_ok areTexts).mp isText
    exact ⟨type, isType, (ofTypes type isType text yields).mp imported⟩
  · rintro ⟨type, isType, needs⟩
    obtain ⟨text, yields⟩ := exists_mapM_eq_ok_iff.mp ⟨texts, areTexts⟩ type isType
    exact ⟨text, (mem_of_mapM_eq_ok areTexts).mpr ⟨type, isType, yields⟩,
      (ofTypes type isType text yields).mpr needs⟩

/-- A type is written with the names that it needs. -/
theorem mem_imports_iff : ∀ {type : TypeExpr}, type.Proper → ∀ {text : TypeText},
    typeText outline type = .ok text → ∀ {name : String}, name ∈ text.imports ↔ Needs type name
  | ⟨kind, typeName, arguments, constant⟩, proper, text, isText, name => by
      obtain ⟨isProper, ofArguments⟩ := TypeExpr.proper_iff.mp proper
      have ih (argument : TypeExpr) (isArgument : argument ∈ arguments) (text : TypeText)
          (yields : typeText outline argument = .ok text) :
          name ∈ text.imports ↔ Needs argument name :=
        mem_imports_iff (ofArguments argument isArgument) yields
      cases kind with
      | primitive =>
          obtain ⟨listed, rfl⟩ := isProper
          have spelled : ∀ name ∈ Analysis.primitiveTypes, (primitiveType? name).isSome := by decide
          obtain ⟨spelling, isSpelling⟩ := Option.isSome_iff_exists.mp (spelled typeName listed)
          rw [typeText, isSpelling] at isText
          cases isText
          rw [needs_iff_of_arguments (by simp) (by simp)]
          simp [TypeText.plain]
      | classRef | enumRef =>
          obtain ⟨-, rfl⟩ := isProper
          rw [typeText] at isText
          cases isText
          rw [needs_iff_of_arguments (by simp) (by simp)]
          simp
      | array =>
          obtain ⟨item, rfl⟩ := isProper
          rw [typeText] at isText
          obtain ⟨inner, isInner, last⟩ := exists_of_bind_eq_ok isText
          cases last
          rw [needs_iff_of_arguments (by simp) (by simp)]
          simpa [TypeText.between] using ih item (by simp) inner isInner
      | tuple =>
          rw [needs_iff_of_arguments (by simp) (by simp)]
          cases arguments with
          | nil =>
              rw [typeText] at isText
              cases isText
              simp [TypeText.plain]
          | cons first rest =>
              rw [typeText] at isText
              obtain ⟨texts, areTexts, last⟩ := exists_of_bind_eq_ok isText
              cases last
              exact mem_imports_join areTexts ih
      | union =>
          rw [needs_iff_of_arguments (by simp) (by simp)]
          rw [typeText] at isText
          obtain ⟨texts, areTexts, last⟩ := exists_of_bind_eq_ok isText
          cases last
          exact mem_imports_join areTexts ih
      | optional =>
          obtain ⟨inner, rfl, -⟩ := isProper
          rw [typeText] at isText
          obtain ⟨innerText, isInner, last⟩ := exists_of_bind_eq_ok isText
          cases last
          rw [needs_iff_of_arguments (by simp) (by simp)]
          simpa [TypeText.between] using ih inner (by simp) innerText isInner
      | literal =>
          obtain rfl := isProper
          rw [typeText] at isText
          cases isText
          simp [Needs, TypeExpr.contains_leaf]
      | any =>
          obtain rfl := isProper
          rw [typeText] at isText
          cases isText
          simp [Needs, TypeExpr.contains_leaf, TypeText.any]

/-! ## Modules of classes -/

/-- Whether the right side of a declaration is a call of the field function. -/
def Declared.CallsField (declared : Declared) : Prop :=
  ∃ arguments, declared.value = some (.plain "field(" :: arguments ++ [.plain ")"])

theorem fieldDefault_ne (field : FieldDefinition) (arguments : List Part) :
    (fieldDefault outline field).1 ≠ some (.plain "field(" :: arguments ++ [.plain ")"]) := by
  unfold fieldDefault
  split
  · split <;> simp
  · dsimp only
    split <;> simp [Part.ofType]

theorem fieldValue_eq_true_iff (name : String) {value : Option (List Part)}
    (plain : ∀ arguments, value ≠ some (.plain "field(" :: arguments ++ [.plain ")"]))
    (needsFactory : Bool) : (fieldValue name value needsFactory).2 = true ↔
      ∃ arguments, (fieldValue name value needsFactory).1 =
        some (.plain "field(" :: arguments ++ [.plain ")"]) := by
  unfold fieldValue
  dsimp only
  split
  · simpa using plain
  · simp

theorem usesField_iff {field : FieldDefinition} {declared : Declared}
    (declares : declareField outline field = .ok declared) :
    declared.usesField = true ↔ declared.CallsField := by
  obtain ⟨type, -, last⟩ := exists_of_bind_eq_ok declares
  have isValue : declared.value = (fieldValue field.name (fieldDefault outline field).1
      (fieldDefault outline field).2).1 := by
    cases last
    rfl
  have uses : declared.usesField = (fieldValue field.name (fieldDefault outline field).1
      (fieldDefault outline field).2).2 := by
    cases last
    rfl
  rw [Declared.CallsField, isValue, uses]
  exact fieldValue_eq_true_iff field.name (fieldDefault_ne field) (fieldDefault outline field).2

/-- What the module of a class imports from the typing module, and whether it imports the field
function. -/
structure TypingNames (definition : ClassDefinition) (module : ClassModule)
    (typingNames : List String) (importsField : Bool) : Prop where
  sorted : typingNames.Pairwise (· < ·)
  mem_iff : ∀ name, name ∈ typingNames ↔
    (name = "Literal" ∧ ∃ field ∈ definition.fields, field.type.Contains .literal) ∨
      (name = "Any" ∧ ∃ field ∈ definition.fields, field.type.Contains .any) ∨
      (name = "TYPE_CHECKING" ∧ typeOnlyBlock module.typeOnly ≠ "")
  importsField_iff : importsField = true ↔ ∃ declared ∈ module.fields, declared.CallsField

/-- The text of the module of a class down to its imports of generated types. -/
def ClassModule.head (module : ClassModule) (typingNames : List String) (importsField : Bool) :
    String :=
  line "from __future__ import annotations" ++ "\n" ++
    line ("from dataclasses import " ++
      if importsField then "dataclass, field" else "dataclass") ++
    (if typingNames.isEmpty then ""
      else line ("from typing import " ++ ", ".intercalate typingNames)) ++
    importBlock module.needed ++
    typeOnlyBlock module.typeOnly

section ClassModules

variable {config : Config} {entry : TypeOutline} {definition : ClassDefinition}
  {module : ClassModule}

theorem typeOnlyBlock_eq_empty_iff {imports : List Import} :
    typeOnlyBlock imports = "" ↔ imports = [] := by
  cases imports <;> simp [typeOnlyBlock, String.append_eq_empty_iff]

theorem mem_typingNames {name : String} : name ∈ module.typingNames ↔
    (∃ declared ∈ module.fields, name ∈ declared.type.imports) ∨
      module.typeOnly ≠ [] ∧ name = "TYPE_CHECKING" := by
  rw [ClassModule.typingNames, Text.mem_sorted, List.mem_eraseDups, List.mem_append,
    List.mem_flatMap]
  cases module.typeOnly <;> simp

/-- The declarations of a class need what the types of its fields need. -/
theorem exists_mem_imports_iff (proper : ∀ field ∈ definition.fields, field.type.Proper)
    (isModule : classModule outline config entry definition = .ok module) {name : String} :
    (∃ declared ∈ module.fields, name ∈ declared.type.imports) ↔
      ∃ field ∈ definition.fields, Needs field.type name := by
  have areFields := (classModule_inversion isModule).1
  have spelled {field : FieldDefinition} {declared : Declared} (isField : field ∈ definition.fields)
      (declares : declareField outline field = .ok declared) :
      name ∈ declared.type.imports ↔ Needs field.type name := by
    obtain ⟨type, isType, last⟩ := exists_of_bind_eq_ok declares
    cases last
    exact mem_imports_iff (proper field isField) isType
  constructor
  · rintro ⟨declared, isDeclared, imported⟩
    obtain ⟨field, isOrdered, declares⟩ := (mem_of_mapM_eq_ok areFields).mp isDeclared
    have isField := mem_orderedFields.mp isOrdered
    exact ⟨field, isField, (spelled isField declares).mp imported⟩
  · rintro ⟨field, isField, needs⟩
    obtain ⟨declared, declares⟩ :=
      exists_mapM_eq_ok_iff.mp ⟨_, areFields⟩ field (mem_orderedFields.mpr isField)
    exact ⟨declared, (mem_of_mapM_eq_ok areFields).mpr
      ⟨field, mem_orderedFields.mpr isField, declares⟩, (spelled isField declares).mpr needs⟩

theorem typingNames_of_classModule (proper : ∀ field ∈ definition.fields, field.type.Proper)
    (isModule : classModule outline config entry definition = .ok module) :
    TypingNames definition module module.typingNames (module.fields.any (·.usesField)) where
  sorted := Text.pairwise_lt_sorted (nodup_eraseDups _)
  mem_iff name := by
    rw [mem_typingNames, exists_mem_imports_iff proper isModule, ne_eq, ne_eq,
      typeOnlyBlock_eq_empty_iff, ← or_assoc, and_comm (b := name = "TYPE_CHECKING")]
    refine or_congr_left ?_
    simp only [Needs, and_or_left, exists_or, and_left_comm (b := name = _), exists_and_left]
  importsField_iff := by
    rw [List.any_eq_true]
    refine exists_congr fun declared => and_congr_right fun isDeclared => ?_
    obtain ⟨field, -, declares⟩ :=
      (mem_of_mapM_eq_ok (classModule_inversion isModule).1).mp isDeclared
    exact usesField_iff declares

theorem exists_text_eq_head {text : String} (isText : module.text = .ok text) :
    ∃ rest, text = module.head module.typingNames (module.fields.any (·.usesField)) ++ rest ++
      String.join (module.fields.map fieldText) := by
  obtain ⟨description, -, last⟩ := exists_of_bind_eq_ok isText
  obtain rfl := Except.ok.inj last
  have grouped (head first second third fourth last : String) :
      head ++ first ++ second ++ third ++ fourth ++ last =
        head ++ (first ++ second ++ third ++ fourth) ++ last := by
    simp only [String.append_assoc]
  exact ⟨_, grouped (module.head module.typingNames (module.fields.any (·.usesField))) "\n\n"
    (lines module.decorators) _ _ _⟩

theorem knows_of_importOf {package : Json} {name : String} {imported : Import}
    (isImport : importOf outline package name = .ok imported) : outline.Knows name := by
  unfold importOf at isImport
  cases found : outline.resolve? name with
  | none => rw [found] at isImport; cases isImport
  | some target => exact ⟨target, Outline.mem_of_resolve? found⟩

theorem isText_of_descriptionText {description : Json} {text : Option String}
    (isText : descriptionText description = .ok text) (given : description.isTruthy = true) :
    description.IsText := by
  rw [descriptionText, if_pos given] at isText
  obtain ⟨content, isContent, -⟩ := exists_of_bind_eq_ok isText
  cases description <;> first | exact ⟨_, rfl⟩ | cases isContent

/-- A class that has an entry has a text just if whatever it refers to has an entry as well, and
it is described by a text if at all. -/
theorem exists_renderClass_iff (proper : ∀ field ∈ definition.fields, field.type.Proper)
    (own : outline.Knows definition.name) :
    (∃ text, renderClass outline config entry definition = .ok text) ↔
      outline.ClosedClass definition ∧
        (definition.description.isTruthy = true → definition.description.IsText) := by
  constructor
  · rintro ⟨text, isText⟩
    obtain ⟨module, isModule, isText⟩ := exists_of_bind_eq_ok isText
    have described := (classModule_inversion isModule).2.2
    obtain ⟨fields, areFields, isModule⟩ := exists_of_bind_eq_ok isModule
    obtain ⟨needed, areNeeded, isModule⟩ := exists_of_bind_eq_ok isModule
    obtain ⟨typeOnly, areTypeOnly, isModule⟩ := exists_of_bind_eq_ok isModule
    obtain ⟨description, isDescription, -⟩ := exists_of_bind_eq_ok isText
    have known (name : String) (written : (∃ field ∈ definition.fields,
        name ∈ field.type.referencedNames) ∨ name ∈ definition.base) : outline.Knows name := by
      by_cases isOwn : name = definition.name
      · exact isOwn ▸ own
      · have imported := (@mem_names definition fields name).mpr
          ⟨written.imp_right Or.inr, isOwn⟩
        rcases List.mem_append.mp imported with atOnce | forTypes
        · obtain ⟨result, yields⟩ := exists_mapM_eq_ok_iff.mp ⟨_, areNeeded⟩ name atOnce
          exact knows_of_importOf yields
        · obtain ⟨result, yields⟩ := exists_mapM_eq_ok_iff.mp ⟨_, areTypeOnly⟩ name forTypes
          exact knows_of_importOf yields
    refine ⟨⟨fun field isField name written => ?_, fun name isBase => ?_⟩, fun given => ?_⟩
    · exact known name (Or.inl ⟨field, isField, written⟩)
    · exact known name (Or.inr isBase)
    · rw [← described] at given ⊢
      exact isText_of_descriptionText isDescription given
  · rintro ⟨closed, described⟩
    have isMade : ∃ module, classModule outline config entry definition = .ok module := by
      obtain ⟨fields, needed, typeOnly, -, -, -, isModule⟩ :=
        @exists_classModule config entry definition { outline, files := [] }
          (fun field isField => (proper field isField).formed) closed.fields closed.base
      exact ⟨_, isModule⟩
    obtain ⟨module, isModule⟩ := isMade
    have sameDescription := (classModule_inversion isModule).2.2
    obtain ⟨text, isText⟩ := ClassModule.exists_text (sameDescription ▸ described)
    exact ⟨text, by rw [renderClass, isModule]; exact isText⟩

end ClassModules

/-! ## A renderer that keeps notes -/

/-- Rendering that notes the names of the typing module.  The notes stay when it fails. -/
abbrev Noting :=
  ExceptT Fault (StateM (List String))

/-- The notes with one more name. -/
def noted (names : List String) (name : String) : List String :=
  if name ∈ names then names else names ++ [name]

def note (name : String) : Noting Unit :=
  modify fun names => noted names name

def noteUnless (isNeedless : Bool) (name : String) : Noting Unit :=
  if isNeedless then pure () else note name

/-- What can be done without notes. -/
def withoutNotes {α : Type} (outcome : Except Fault α) : Noting α :=
  ExceptT.mk (pure outcome)

mutual

def noteType (outline : Outline) : TypeExpr → Noting (List Part)
  | ⟨.primitive, name, _, _⟩ =>
      match primitiveType? name with
      | some text => return [.plain text]
      | none => do
          note "Any"
          return [.plain "Any"]
  | ⟨.classRef, name, _, _⟩ => return [.ofType outline name]
  | ⟨.enumRef, name, _, _⟩ => return [.ofType outline name]
  | ⟨.array, _, [], _⟩ => return [.plain "list"]
  | ⟨.array, _, item :: _, _⟩ => do
      return .plain "list[" :: (← noteType outline item) ++ [.plain "]"]
  | ⟨.tuple, _, [], _⟩ => return [.plain "tuple"]
  | ⟨.tuple, _, first :: rest, _⟩ => do
      return .plain "tuple[" ::
        [.plain ", "].intercalate (← noteTypes outline (first :: rest)) ++ [.plain "]"]
  | ⟨.union, _, variants, _⟩ => do
      return [.plain " | "].intercalate (← noteTypes outline variants)
  | ⟨.optional, _, [], _⟩ => throw .missingItem
  | ⟨.optional, _, inner :: _, _⟩ => do
      return .plain "" :: (← noteType outline inner) ++ [.plain " | None"]
  | ⟨.literal, _, _, constant⟩ => do
      note "Literal"
      return [.plain ("Literal[" ++ literal constant ++ "]")]
  | ⟨.any, _, _, _⟩ => do
      note "Any"
      return [.plain "Any"]

def noteTypes (outline : Outline) : List TypeExpr → Noting (List (List Part))
  | [] => return []
  | type :: rest => do
      let parts ← noteType outline type
      return parts :: (← noteTypes outline rest)

end

def noteField (outline : Outline) (field : FieldDefinition) : Noting Declared := do
  let parts ← noteType outline field.type
  let (value, needsFactory) := fieldDefault outline field
  let (value, usesField) := fieldValue field.name value needsFactory
  return {
    name := Naming.attributeName field.name
    type := { parts }
    value
    description := field.description
    usesField }

/-- The declarations of a class.  The check for type checkers is noted if there are imports for
these only. -/
def noteFields (outline : Outline) (config : Config) (definition : ClassDefinition) :
    Noting (List Declared) := do
  let fields ← (orderedFields config definition.fields).mapM (noteField outline)
  noteUnless (typeOnlyNames definition (neededNames definition fields)).isEmpty "TYPE_CHECKING"
  return fields

/-- Render a class with notes of its own. -/
def noteClass (outline : Outline) (config : Config) (entry : TypeOutline)
    (definition : ClassDefinition) : Noting String := do
  set ([] : List String)
  let fields ← noteFields outline config definition
  let typingNames ← get
  withoutNotes do
    let neededNames := neededNames definition fields
    let needed ← neededNames.mapM (importOf outline entry.package)
    let typeOnly ← (typeOnlyNames definition neededNames).mapM (importOf outline entry.package)
    ClassModule.textWith (Text.sorted typingNames) {
      needed
      typeOnly
      name := entry.name
      base := definition.base.map (Part.ofType outline)
      decorators := entry.annotations ++ [decorator config entry.frozen]
      description := definition.description
      fields }

/-- Render a file. -/
def noteFile (outline : Outline) (config : Config) (file : GeneratedFile) : Noting String :=
  match file.content with
  | .package => withoutNotes (renderPackage outline file.package)
  | .entry index =>
      match outline.entries[index]? with
      | none => throw .lacksPart
      | some entry =>
          match entry.target with
          | .ofClass definition => noteClass outline config entry definition
          | .ofEnum definition => withoutNotes (renderEnum entry definition)

/-- Render files one after the other, any of which may fail, with the notes that are there. -/
def noteFiles (outline : Outline) (config : Config) (names : List String) :
    List GeneratedFile → List (Except Fault String)
  | [] => []
  | file :: rest =>
      let (outcome, names) := (noteFile outline config file).run names
      outcome :: noteFiles outline config names rest

/-! ### What is noted -/

section Notes

variable {α β : Type}

/-- What a computation yields and what it notes, whatever was noted before. -/
structure Notes (action : Noting α) (outcome : Except Fault (α × List String)) : Prop where
  yields : ∀ value more, outcome = .ok (value, more) →
    ∀ names, action.run names = (.ok value, more.foldl noted names)
  fails : ∀ fault, outcome = .error fault → ∀ names, (action.run names).1 = .error fault

theorem notes_pure (value : α) : Notes (pure value) (.ok (value, [])) where
  yields := by
    rintro _ _ ⟨⟩ names
    rfl
  fails := nofun

theorem notes_note (name : String) : Notes (note name) (.ok ((), [name])) where
  yields := by
    rintro _ _ ⟨⟩ names
    rfl
  fails := nofun

theorem notes_noteUnless (isNeedless : Bool) (name : String) :
    Notes (noteUnless isNeedless name) (.ok ((), if isNeedless then [] else [name])) := by
  cases isNeedless with
  | true => exact notes_pure ()
  | false => exact notes_note name

theorem run_withoutNotes (outcome : Except Fault α) (names : List String) :
    ((withoutNotes outcome).run names).1 = outcome :=
  rfl

theorem notes_withoutNotes (outcome : Except Fault α) :
    Notes (withoutNotes outcome) (outcome.map fun value => (value, [])) := by
  cases outcome with
  | error fault =>
      refine ⟨nofun, fun other same _ => ?_⟩
      cases same
      rfl
  | ok value => exact notes_pure value

theorem Notes.bind {action : Noting α} {next : α → Noting β}
    {outcome : Except Fault (α × List String)} {outcomes : α → Except Fault (β × List String)}
    (first : Notes action outcome) (second : ∀ value, Notes (next value) (outcomes value)) :
    Notes (action >>= next) (outcome.bind fun (value, names) =>
      (outcomes value).map fun (result, more) => (result, names ++ more)) := by
  cases outcome with
  | error fault =>
      refine ⟨nofun, fun other same names => ?_⟩
      obtain rfl : fault = other := Except.error.inj same
      have failed := first.fails fault rfl names
      rw [run_bind]
      rcases ran : action.run names with ⟨outcome, after⟩
      rw [ran] at failed
      obtain rfl : outcome = .error fault := failed
      rfl
  | ok found =>
      obtain ⟨value, more⟩ := found
      have ran := first.yields value more rfl
      cases later : outcomes value with
      | error fault =>
          refine ⟨by simp [Except.bind, later, Except.map], fun other same names => ?_⟩
          simp only [Except.bind, later, Except.map] at same
          rw [run_bind, ran]
          exact (second value).fails other (later.trans same) _
      | ok result =>
          obtain ⟨result, further⟩ := result
          refine ⟨fun other names same => ?_, by simp [Except.bind, later, Except.map]⟩
          simp only [Except.bind, later, Except.map, Except.ok.injEq, Prod.mk.injEq] at same
          obtain ⟨rfl, rfl⟩ := same
          intro names
          rw [run_bind, ran, List.foldl_append]
          exact (second value).yields result further later _

theorem Notes.congr {action : Noting α} {outcome other : Except Fault (α × List String)}
    (notes : Notes action outcome) (same : outcome = other) : Notes action other :=
  same ▸ notes

section Views

variable {γ δ : Type} {action : Noting α} {item : Except Fault γ} {value : γ → α}
  {names : γ → List String}

/-- What is made of something that is noted. -/
theorem Notes.map (notes : Notes action (item.map fun found => (value found, names found)))
    (view : α → β) (form : γ → δ) {result : δ → β} {further : δ → List String}
    (sameResult : ∀ found, result (form found) = view (value found))
    (sameNames : ∀ found, further (form found) = names found) :
    Notes (action >>= fun found => pure (view found))
      ((item >>= fun found => pure (form found)).map fun made => (result made, further made)) := by
  refine (notes.bind fun _ => notes_pure _).congr ?_
  cases item with
  | error fault => rfl
  | ok found =>
      change Except.ok (view (value found), names found ++ []) =
        Except.ok (result (form found), further (form found))
      rw [sameResult, sameNames, List.append_nil]

/-- Two things that are noted one after the other. -/
theorem Notes.cons {actions : Noting (List α)} {items : Except Fault (List γ)}
    (first : Notes action (item.map fun found => (value found, names found)))
    (others : Notes actions (items.map fun found => (found.map value, found.flatMap names))) :
    Notes (do let found ← action; let others ← actions; return found :: others)
      (Except.map (fun all => (all.map value, all.flatMap names))
        (do let found ← item; let others ← items; return found :: others)) := by
  refine (first.bind fun _ => others.bind fun _ => notes_pure _).congr ?_
  cases item with
  | error fault => rfl
  | ok found =>
      cases items with
      | error fault => rfl
      | ok rest =>
          change Except.ok (value found :: rest.map value,
            names found ++ (rest.flatMap names ++ [])) = Except.ok (_, _)
          rw [List.append_nil, List.map_cons, List.flatMap_cons]

end Views

theorem notes_mapM {γ : Type} {action : α → Noting β} {item : α → Except Fault γ}
    {value : γ → β} {names : γ → List String}
    (notes : ∀ argument, Notes (action argument)
      ((item argument).map fun result => (value result, names result))) (arguments : List α) :
    Notes (arguments.mapM action) ((arguments.mapM item).map fun results =>
      (results.map value, results.flatMap names)) := by
  induction arguments with
  | nil => exact notes_pure []
  | cons argument rest ih =>
      rw [List.mapM_cons, List.mapM_cons]
      exact (notes argument).cons ih

mutual

theorem notes_noteType (outline : Outline) : ∀ type : TypeExpr,
    Notes (noteType outline type)
      ((typeText outline type).map fun text => (text.parts, text.imports))
  | ⟨kind, name, arguments, constant⟩ => by
      cases kind with
      | primitive =>
          rw [noteType, typeText]
          cases primitiveType? name with
          | none => exact (notes_note "Any").bind fun _ => notes_pure _
          | some text => exact notes_pure _
      | classRef | enumRef =>
          rw [noteType, typeText]
          exact notes_pure _
      | array =>
          cases arguments with
          | nil =>
              rw [noteType, typeText]
              exact notes_pure _
          | cons item rest =>
              rw [noteType, typeText]
              exact (notes_noteType outline item).map _ (·.between "list[" "]") (fun _ => rfl)
                fun _ => rfl
      | tuple =>
          cases arguments with
          | nil =>
              rw [noteType, typeText]
              exact notes_pure _
          | cons first rest =>
              rw [noteType, typeText]
              exact (notes_noteTypes outline (first :: rest)).map _
                (fun texts => (TypeText.join ", " texts).between "tuple[" "]") (fun _ => rfl)
                fun _ => rfl
      | union =>
          rw [noteType, typeText]
          exact (notes_noteTypes outline arguments).map _ (TypeText.join " | ") (fun _ => rfl)
            fun _ => rfl
      | optional =>
          cases arguments with
          | nil =>
              rw [noteType, typeText]
              exact notes_withoutNotes (.error .missingItem)
          | cons inner rest =>
              rw [noteType, typeText]
              exact (notes_noteType outline inner).map _ (·.between "" " | None") (fun _ => rfl)
                fun _ => rfl
      | literal =>
          rw [noteType, typeText]
          exact (notes_note "Literal").bind fun _ => notes_pure _
      | any =>
          rw [noteType, typeText]
          exact (notes_note "Any").bind fun _ => notes_pure _

theorem notes_noteTypes (outline : Outline) : ∀ types : List TypeExpr,
    Notes (noteTypes outline types) ((typeTexts outline types).map fun texts =>
      (texts.map TypeText.parts, texts.flatMap TypeText.imports))
  | [] => by
      rw [noteTypes, typeTexts]
      exact notes_pure _
  | type :: rest => by
      rw [noteTypes, typeTexts]
      exact (notes_noteType outline type).cons (notes_noteTypes outline rest)

end

/-- A declaration without the names that its type needs. -/
def Declared.unnoted (declared : Declared) : Declared :=
  { declared with type := { parts := declared.type.parts } }

theorem notes_noteField (outline : Outline) (field : FieldDefinition) :
    Notes (noteField outline field) ((declareField outline field).map fun declared =>
      (declared.unnoted, declared.type.imports)) :=
  (notes_noteType outline field.type).map _ _ (fun _ => rfl) fun _ => rfl

theorem neededNames_unnoted (definition : ClassDefinition) (fields : List Declared) :
    neededNames definition (fields.map Declared.unnoted) = neededNames definition fields := by
  rw [neededNames, neededNames, List.flatMap_map]
  rfl

theorem notes_noteFields (outline : Outline) (config : Config) (definition : ClassDefinition) :
    Notes (noteFields outline config definition)
      (((orderedFields config definition.fields).mapM (declareField outline)).map fun fields =>
        (fields.map Declared.unnoted, fields.flatMap (·.type.imports) ++
          if (typeOnlyNames definition (neededNames definition fields)).isEmpty then []
          else ["TYPE_CHECKING"])) := by
  refine ((notes_mapM (notes_noteField outline) (orderedFields config definition.fields)).bind
    fun _ => (notes_noteUnless _ _).bind fun _ => notes_pure _).congr ?_
  cases (orderedFields config definition.fields).mapM (declareField outline) with
  | error fault => rfl
  | ok fields =>
      simp [Except.map, Except.bind, neededNames_unnoted]

theorem mem_foldl_noted {name : String} (names more : List String) :
    name ∈ more.foldl noted names ↔ name ∈ names ∨ name ∈ more := by
  induction more generalizing names with
  | nil => simp
  | cons first rest ih =>
      rw [List.foldl_cons, ih, noted]
      split <;> grind

theorem nodup_foldl_noted {names : List String} (distinct : names.Nodup) (more : List String) :
    (more.foldl noted names).Nodup := by
  induction more generalizing names with
  | nil => exact distinct
  | cons first rest ih =>
      rw [List.foldl_cons]
      refine ih ?_
      unfold noted
      split
      · exact distinct
      · rename_i new
        exact List.concat_eq_append ▸ distinct.concat new

/-- What is noted for a class, in order, is what its module imports. -/
theorem sorted_foldl_noted (module : ClassModule) :
    Text.sorted ((module.fields.flatMap (·.type.imports) ++
      if module.typeOnly.isEmpty then [] else ["TYPE_CHECKING"]).foldl noted []) =
        module.typingNames := by
  refine Text.sorted_eq_of_perm ((List.perm_ext_iff_of_nodup
    (nodup_foldl_noted List.nodup_nil _) (nodup_eraseDups _)).mpr fun name => ?_)
  rw [mem_foldl_noted, List.mem_eraseDups]
  simp

theorem ClassModule.textWith_unnoted (typingNames : List String) (module : ClassModule) :
    ClassModule.textWith typingNames
      { module with fields := module.fields.map Declared.unnoted } =
        module.textWith typingNames := by
  have field (declared : Declared) : fieldText declared.unnoted = fieldText declared := rfl
  simp only [textWith, dataclassNames, List.any_map, List.isEmpty_map, List.map_map,
    Function.comp_def, field]
  rfl

/-- A class is rendered as if nothing had been noted. -/
theorem run_noteClass (outline : Outline) (config : Config) (entry : TypeOutline)
    (definition : ClassDefinition) (names : List String) :
    ((noteClass outline config entry definition).run names).1 =
      renderClass outline config entry definition := by
  have fields := notes_noteFields outline config definition
  change (((noteFields outline config definition >>= _).run []).1 : Except Fault String) = _
  rw [run_bind, renderClass, classModule]
  cases areFields : (orderedFields config definition.fields).mapM (declareField outline) with
  | error fault =>
      rw [areFields] at fields
      have failed := fields.fails fault rfl []
      rcases ran : (noteFields outline config definition).run [] with ⟨outcome, after⟩
      rw [ran] at failed
      obtain rfl : outcome = .error fault := failed
      rfl
  | ok declared =>
      rw [areFields] at fields
      rw [fields.yields _ _ rfl]
      dsimp only
      rw [run_get_bind, run_withoutNotes, neededNames_unnoted]
      have bindOk {β : Type} (next : List Declared → Except Fault β) :
          (Except.ok declared >>= next) = next declared := rfl
      simp only [bindOk, bind_assoc, pure_bind]
      refine bind_congr fun needed => ?_
      cases areTypeOnly : (typeOnlyNames definition (neededNames definition declared)).mapM
        (importOf outline entry.package) with
      | error fault => exact (rfl : Except.error fault = .error fault)
      | ok typeOnly =>
          have sameLength : typeOnly.map (fun _ => ()) =
              (typeOnlyNames definition (neededNames definition declared)).map fun _ => () :=
            map_of_mapM_eq_ok (fun _ _ _ => rfl) areTypeOnly
          have sameEmpty := congrArg List.isEmpty sameLength
          rw [List.isEmpty_map, List.isEmpty_map] at sameEmpty
          let module : ClassModule :=
            { needed, typeOnly, name := entry.name
              base := definition.base.map (Part.ofType outline)
              decorators := entry.annotations ++ [decorator config entry.frozen]
              description := definition.description
              fields := declared }
          rw [← sameEmpty]
          change ClassModule.textWith (Text.sorted ((module.fields.flatMap (·.type.imports) ++
            if module.typeOnly.isEmpty then [] else ["TYPE_CHECKING"]).foldl noted []))
              { module with fields := module.fields.map Declared.unnoted } = module.text
          rw [sorted_foldl_noted, ClassModule.textWith_unnoted]
          rfl

theorem run_noteFile (outline : Outline) (config : Config) (file : GeneratedFile)
    (names : List String) :
    ((noteFile outline config file).run names).1 = render outline config file := by
  unfold noteFile render
  cases file.content with
  | package => rfl
  | entry index =>
      dsimp only
      cases outline.entries[index]? with
      | none => rfl
      | some entry =>
          dsimp only
          cases entry.target with
          | ofClass definition => exact run_noteClass outline config entry definition names
          | ofEnum definition => rfl

/-- Files that are rendered one after the other have the texts that each of them has alone. -/
theorem noteFiles_eq_map (outline : Outline) (config : Config) (names : List String)
    (files : List GeneratedFile) :
    noteFiles outline config names files = files.map (render outline config) := by
  induction files generalizing names with
  | nil => rfl
  | cons file rest ih =>
      rw [List.map_cons, ← ih ((noteFile outline config file).run names).2,
        ← run_noteFile outline config file names]
      rfl

end Notes

/-! ## Files of classes -/

/-- The file of a class whose types are put together properly.  It has a text if whatever the class
refers to has an entry.  The text imports the names of literals, of the type of everything and of
the check for type checkers from the typing module just if they occur in it, and the field
function just if a declaration calls it.  A renderer that keeps notes yields the same text, whatever
it rendered before. -/
theorem typingNames_of_render (outline : Outline) (config : Config) {file : GeneratedFile}
    {index : Nat} {entry : TypeOutline} {definition : ClassDefinition}
    (holds : file.content = .entry index)
    (atIndex : outline.entries[index]? = some entry) (isClass : entry.target = .ofClass definition)
    (proper : ∀ field ∈ definition.fields, field.type.Proper) :
    ((∃ text, render outline config file = .ok text) ↔
      outline.ClosedClass definition ∧
        (definition.description.isTruthy = true → definition.description.IsText)) ∧
      (∀ text, render outline config file = .ok text →
        ∃ module typingNames importsField rest,
          classModule outline config entry definition = .ok module ∧
          TypingNames definition module typingNames importsField ∧
          text = module.head typingNames importsField ++ rest ++
            String.join (module.fields.map fieldText)) ∧
      ∀ names files, noteFiles outline config names files = files.map (render outline config) := by
  have rendered : render outline config file = renderClass outline config entry definition := by
    simp only [render, holds, atIndex, isClass]
  have own : outline.Knows definition.name :=
    ⟨entry, List.mem_of_getElem? atIndex, by rw [TypeOutline.modelName, isClass]; rfl⟩
  refine ⟨?renders, ?imports, noteFiles_eq_map outline config⟩
  case renders =>
    rw [rendered]
    exact exists_renderClass_iff proper own
  case imports =>
    intro text isText
    rw [rendered] at isText
    obtain ⟨module, isModule, isText⟩ := exists_of_bind_eq_ok isText
    obtain ⟨rest, same⟩ := exists_text_eq_head isText
    exact ⟨module, _, _, rest, isModule, typingNames_of_classModule proper isModule, same⟩

/-- A class with a list of markers, all of which are one text, and a value of any kind. -/
def marked : ClassDefinition where
  name := "Marked"
  package := .text ""
  base := none
  fields := [
    { name := "markers", type := (TypeExpr.listOf (.literal "string" (.text "x"))).optional
      required := false, default? := none, description := .null },
    { name := "value", type := .anything, required := false, default? := none
      description := .null }]
  description := .null
  source := ""

/-- The outline of this class alone. -/
def markedOutline : Outline where
  entries := [{ target := .ofClass marked, name := "Marked", package := .text "" }]

theorem proper_marked : ∀ field ∈ marked.fields, field.type.Proper := by
  have list : (TypeExpr.listOf (.literal "string" (.text "x"))).Proper :=
    TypeExpr.proper_iff.mpr ⟨⟨_, rfl⟩, List.forall_mem_singleton.mpr (TypeExpr.proper_leaf rfl rfl)⟩
  exact List.forall_mem_cons.mpr ⟨TypeExpr.proper_optional list,
    List.forall_mem_singleton.mpr (TypeExpr.proper_leaf rfl rfl)⟩

def markedFile : GeneratedFile where
  package := .text ""
  fileName := "marked.py"
  content := .entry 0

/-- The module of this class imports the names of literals and of the type of everything. -/
theorem typingNames_marked :
    (∀ field ∈ marked.fields, field.type.Proper) ∧
      ∃ text module typingNames importsField rest,
        render markedOutline {} markedFile = .ok text ∧
        TypingNames marked module typingNames importsField ∧
        text = module.head typingNames importsField ++ rest ++
          String.join (module.fields.map fieldText) ∧
        "Literal" ∈ typingNames ∧ "Any" ∈ typingNames := by
  obtain ⟨renders, imports, -⟩ :=
    typingNames_of_render markedOutline {} (show markedFile.content = .entry 0 from rfl) rfl rfl
      proper_marked
  have closed : markedOutline.ClosedClass marked := by
    constructor
    · simp [marked, TypeExpr.optional, TypeExpr.listOf, TypeExpr.literal, TypeExpr.anything,
        TypeExpr.referencedNames, TypeExpr.referencedNamesOfAll]
    · simp [marked]
  obtain ⟨text, isText⟩ := renders.mpr ⟨closed, fun described => by cases described⟩
  obtain ⟨module, typingNames, importsField, rest, -, names, same⟩ := imports text isText
  refine ⟨proper_marked, text, module, typingNames, importsField, rest, isText, names, same,
    (names.mem_iff _).mpr (Or.inl ⟨rfl, ?_⟩), (names.mem_iff _).mpr (Or.inr (Or.inl ⟨rfl, ?_⟩))⟩
  · exact ⟨_, List.mem_cons_self, _,
      .argument List.mem_cons_self (.argument List.mem_cons_self .self), rfl⟩
  · exact ⟨_, List.mem_cons_of_mem _ List.mem_cons_self, _, .self, rfl⟩

end Python

end Typeloom
