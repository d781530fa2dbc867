import Typeloom.Generate.Outline
import Typeloom.Json.Writer
import Typeloom.Naming.Identifier
import Typeloom.Options.Config
import Typeloom.Text.Sorting
import Typeloom.Unicode.Blank
import Typeloom.Unicode.LowerCase

/-!
# Python modules

Every class becomes a module with one dataclass, every enum a module with one enum, and every
named package a module that offers all its types.  A module imports the types it names: those it
needs when it is loaded at once, the others for type checkers only.
-/

namespace Typeloom

namespace Python

/-! ## Values and types -/

mutual

def literal : Json → String
  | .null => "None"
  | .bool value => if value then "True" else "False"
  | .integer value => Number.writeInteger value
  | .number value => Number.writeBinary "inf" "nan" value
  | .text value => Json.quote value
  | .array items => "[" ++ literalItems items ++ "]"
  | .object members => "\x7b" ++ literalMembers members ++ "\x7d"

def literalItems : List Json → String
  | [] => ""
  | [item] => literal item
  | item :: next :: rest => literal item ++ ", " ++ literalItems (next :: rest)

def literalMembers : List (String × Json) → String
  | [] => ""
  | [(key, value)] => Json.quote key ++ ": " ++ literal value
  | (key, value) :: next :: rest =>
      Json.quote key ++ ": " ++ literal value ++ ", " ++ literalMembers (next :: rest)

end

/-- A part of a text in which names of classes and enums are written. -/
inductive Part where
  | plain (text : String)
  /-- The generated name of the class or enum with a model name. -/
  | named (modelName name : String)
deriving DecidableEq, Repr, Inhabited

namespace Part

def text : Part → String
  | .plain text => text
  | .named _ name => name

def modelName? : Part → Option String
  | .plain _ => none
  | .named modelName _ => some modelName

def ofType (outline : Outline) (modelName : String) : Part :=
  .named modelName (outline.typeName modelName)

def joined (parts : List Part) : String :=
  String.join (parts.map text)

/-- The model names of the classes and enums whose names are written in parts. -/
def modelNames (parts : List Part) : List String :=
  parts.filterMap modelName?

end Part

/-- The spelling of a type, and the names of the typing module it needs. -/
structure TypeText where
  parts : List Part
  imports : List String := []
deriving Repr, Inhabited

def TypeText.text (type : TypeText) : String :=
  Part.joined type.parts

def TypeText.plain (text : String) : TypeText :=
  { parts := [.plain text] }

/-- A type between two texts. -/
def TypeText.between (before : String) (type : TypeText) (after : String) : TypeText :=
  { type with parts := .plain before :: type.parts ++ [.plain after] }

def primitiveType? (name : String) : Option String :=
  [("integer", "int"), ("string", "str"), ("boolean", "bool"), ("number", "float"),
    ("null", "None")].lookup name

/-- Several types with something between them. -/
def TypeText.join (separator : String) (types : List TypeText) : TypeText :=
  { parts := [.plain separator].intercalate (types.map TypeText.parts)
    imports := types.flatMap TypeText.imports }

def TypeText.any : TypeText :=
  { parts := [.plain "Any"], imports := ["Any"] }

mutual

def typeText (outline : Outline) : TypeExpr → Except Fault TypeText
  | ⟨.primitive, name, _, _⟩ =>
      match primitiveType? name with
      | some text => .ok (.plain text)
      | none => .ok .any
  | ⟨.classRef, name, _, _⟩ => .ok { parts := [.ofType outline name] }
  | ⟨.enumRef, name, _, _⟩ => .ok { parts := [.ofType outline name] }
  | ⟨.array, _, [], _⟩ => .ok (.plain "list")
  | ⟨.array, _, item :: _, _⟩ => do
      return (← typeText outline item).between "list[" "]"
  | ⟨.tuple, _, [], _⟩ => .ok (.plain "tuple")
  | ⟨.tuple, _, first :: rest, _⟩ => do
      return (TypeText.join ", " (← typeTexts outline (first :: rest))).between "tuple[" "]"
  | ⟨.union, _, variants, _⟩ => do
      return TypeText.join " | " (← typeTexts outline variants)
  | ⟨.optional, _, [], _⟩ => .error .missingItem
  | ⟨.optional, _, inner :: _, _⟩ => do
      return (← typeText outline inner).between "" " | None"
  | ⟨.literal, _, _, constant⟩ =>
      .ok { parts := [.plain ("Literal[" ++ literal constant ++ "]")], imports := ["Literal"] }
  | ⟨.any, _, _, _⟩ => .ok .any

def typeTexts (outline : Outline) : List TypeExpr → Except Fault (List TypeText)
  | [] => .ok []
  | type :: rest => do
      let text ← typeText outline type
      let texts ← typeTexts outline rest
      return text :: texts

end

/-- A default value as an expression, and whether every instance needs a value of its own. -/
def defaultValue (value : Json) : String × Bool :=
  match value with
  | .array _ => (literal value, true)
  | .object _ => (literal value, true)
  | _ => (literal value, false)

/-! ## Modules and imports -/

def moduleName (typeName : String) : String :=
  let name := Naming.snakeCase typeName
  if name.isEmpty then Unicode.lower typeName else name

/-- Where a module is looked for. -/
inductive Origin where
  | sibling
  | within (package : Json)
  | top
deriving DecidableEq, Repr, Inhabited

structure Import where
  origin : Origin
  module : String
  name : String
deriving DecidableEq, Repr, Inhabited

def Import.text (imported : Import) : String :=
  let source :=
    match imported.origin with
    | .sibling => "." ++ imported.module
    | .within package => package.inMessage ++ "." ++ imported.module
    | .top => imported.module
  "from " ++ source ++ " import " ++ imported.name

/-- The import of a type into a module of a package. -/
def importInto (package : Json) (target : TypeOutline) : Import :=
  { origin :=
      if target.package.isTruthy then
        if target.package.equal package then .sibling else .within target.package
      else .top
    module := moduleName target.name
    name := target.name }

/-- The import of the type with a model name into a module of a package. -/
def importOf (outline : Outline) (package : Json) (modelName : String) : Except Fault Import :=
  match outline.resolve? modelName with
  | none => .error .lacksPart
  | some target => .ok (importInto package target)

/-- A text between triple quotes, without blanks at its ends. -/
def escapeDescription : List Char → List Char
  | [] => []
  | '\"' :: '\"' :: '\"' :: rest => ['\\', '\"', '\\', '\"', '\\', '\"'] ++ escapeDescription rest
  | '\\' :: rest => '\\' :: '\\' :: escapeDescription rest
  | character :: rest => character :: escapeDescription rest

/-- The description of a type, if it has one that is not blank. -/
def descriptionText (description : Json) : Except Fault (Option String) :=
  if description.isTruthy then do
    let text := Unicode.trim (← description.textOf).toList
    return if text.isEmpty then none else some (String.ofList (escapeDescription text))
  else .ok none

def line (text : String) : String :=
  text ++ "\n"

def lines (texts : List String) : String :=
  String.join (texts.map line)

/-! ## Classes -/

structure Declared where
  name : String
  type : TypeText
  value : Option (List Part)
  description : Json
  usesField : Bool
deriving Repr, Inhabited

/-- The value of a field that is not given, and whether every instance needs a value of its
own. -/
def fieldDefault (outline : Outline) (field : FieldDefinition) : Option (List Part) × Bool :=
  match field.default? with
  | none => (if field.required then none else some [.plain "None"], false)
  | some value =>
      let inner := field.type.withoutOptional
      if inner.kind = .enumRef ∧ value ≠ .null then
        (some [.ofType outline inner.name, .plain ("(" ++ literal value ++ ")")], false)
      else
        let (text, needsFactory) := defaultValue value
        (some [.plain text], needsFactory)

/-- The right side of a declaration, and whether it uses the field function. -/
def fieldValue (name : String) (value : Option (List Part)) (needsFactory : Bool) :
    Option (List Part) × Bool :=
  let renamed := Naming.attributeName name != name
  if !needsFactory && !renamed then (value, false)
  else
    let given : List (List Part) :=
      match value with
      | none => []
      | some parts =>
          if needsFactory then [.plain "default_factory=lambda: " :: parts]
          else [.plain "default=" :: parts]
    let metadata : List (List Part) :=
      if renamed then [[.plain ("metadata=\x7b\"json_name\": " ++ Json.quote name ++ "\x7d")]]
      else []
    let arguments := [.plain ", "].intercalate (given ++ metadata)
    (some (.plain "field(" :: arguments ++ [.plain ")"]), true)

def declareField (outline : Outline) (field : FieldDefinition) : Except Fault Declared := do
  let type ← typeText outline field.type
  let (value, needsFactory) := fieldDefault outline field
  let (value, usesField) := fieldValue field.name value needsFactory
  return {
    name := Naming.attributeName field.name
    type
    value
    description := field.description
    usesField }

/-- Whether a field must be given. -/
def isMandatory (field : FieldDefinition) : Bool :=
  field.required && field.default?.isNone

/-- The fields in the order of their declarations: where they may be given by position, those
that must be given come first. -/
def orderedFields (config : Config) (fields : List FieldDefinition) : List FieldDefinition :=
  if config.pythonKwOnly.isTruthy then fields
  else fields.filter isMandatory ++ fields.filter fun field => !isMandatory field

def Declared.declaration (field : Declared) : String :=
  let declared := field.name ++ ": " ++ field.type.text
  match field.value with
  | some parts => declared ++ " = " ++ Part.joined parts
  | none => declared

/-- The model names of the classes and enums whose names are written in a type. -/
def Declared.typeNames (field : Declared) : List String :=
  Part.modelNames field.type.parts

/-- The model names of the enums whose names are written in a value. -/
def Declared.valueNames (field : Declared) : List String :=
  Part.modelNames (field.value.getD [])

def fieldText (field : Declared) : String :=
  let comment :=
    if field.description.isTruthy then
      line ("    # " ++ Text.replaceCharacter '\n' ' ' field.description.inMessage)
    else ""
  comment ++ line ("    " ++ field.declaration)

def importLines (imports : List Import) : List String :=
  Text.sorted (imports.map Import.text)

/-- A block of imports behind an empty line, or nothing. -/
def importBlock (imports : List Import) : String :=
  if imports.isEmpty then "" else "\n" ++ lines (importLines imports)

/-- A block of imports for type checkers only, or nothing. -/
def typeOnlyBlock (imports : List Import) : String :=
  if imports.isEmpty then ""
  else "\nif TYPE_CHECKING:\n" ++ lines ((importLines imports).map fun text => "    " ++ text)

/-- The line that makes a class a dataclass. -/
def decorator (config : Config) (frozen : Bool) : String :=
  let arguments :=
    (if config.pythonKwOnly.isTruthy then ["kw_only=True"] else []) ++
      (if frozen then ["frozen=True"] else [])
  if arguments.isEmpty then "@dataclass" else "@dataclass(" ++ ", ".intercalate arguments ++ ")"

/-- The model names that a class needs when its module is run: those of the enums of its defaults
and that of its base, but not its own. -/
def neededNames (definition : ClassDefinition) (fields : List Declared) : List String :=
  ((fields.flatMap (·.valueNames) ++ definition.base.toList).eraseDups).filter (· ≠ definition.name)

/-- The model names that only the types of a class need. -/
def typeOnlyNames (definition : ClassDefinition) (needed : List String) : List String :=
  ((definition.fields.flatMap fun field => field.type.referencedNames).eraseDups).filter fun name =>
    !needed.contains name && name ≠ definition.name

structure ClassModule where
  needed : List Import
  typeOnly : List Import
  name : String
  base : Option Part
  decorators : List String
  description : Json
  fields : List Declared
deriving Repr, Inhabited

/-- The module of a class, as it is seen from its package. -/
def classModule (outline : Outline) (config : Config) (entry : TypeOutline)
    (definition : ClassDefinition) : Except Fault ClassModule := do
  let fields ← (orderedFields config definition.fields).mapM (declareField outline)
  let neededNames := neededNames definition fields
  let needed ← neededNames.mapM (importOf outline entry.package)
  let typeOnly ← (typeOnlyNames definition neededNames).mapM (importOf outline entry.package)
  return {
    needed
    typeOnly
    name := entry.name
    base := definition.base.map (Part.ofType outline)
    decorators := entry.annotations ++ [decorator config entry.frozen]
    description := definition.description
    fields }

namespace ClassModule

def dataclassNames (module : ClassModule) : String :=
  if module.fields.any (·.usesField) then "dataclass, field" else "dataclass"

def typingNames (module : ClassModule) : List String :=
  Text.sorted ((module.fields.flatMap (·.type.imports)) ++
    (if module.typeOnly.isEmpty then [] else ["TYPE_CHECKING"])).eraseDups

/-- The text of the module of a class that imports the given names from the typing module. -/
def textWith (typingNames : List String) (module : ClassModule) : Except Fault String := do
  let description ← descriptionText module.description
  let base := (module.base.map Part.text).getD ""
  return line "from __future__ import annotations" ++ "\n" ++
    line ("from dataclasses import " ++ module.dataclassNames) ++
    (if typingNames.isEmpty then ""
      else line ("from typing import " ++ ", ".intercalate typingNames)) ++
    importBlock module.needed ++
    typeOnlyBlock module.typeOnly ++
    "\n\n" ++
    lines module.decorators ++
    line ("class " ++ module.name ++ (if base.isEmpty then "" else "(" ++ base ++ ")") ++ ":") ++
    (match description with
      | some text =>
          line ("    \"\"\"" ++ text ++ "\"\"\"") ++
            (if module.fields.isEmpty then "" else "\n")
      | none => if module.fields.isEmpty then line "    pass" else "") ++
    String.join (module.fields.map fieldText)

def text (module : ClassModule) : Except Fault String :=
  module.textWith module.typingNames

end ClassModule

def renderClass (outline : Outline) (config : Config) (entry : TypeOutline)
    (definition : ClassDefinition) : Except Fault String := do
  (← classModule outline config entry definition).text

/-! ## Enums and packages -/

/-- The bases of an enum whose first value has a type. -/
def enumBases (valueType : String) : String :=
  if valueType = "string" then "str, Enum"
  else if valueType = "integer" then "int, Enum"
  else "Enum"

def renderEnum (entry : TypeOutline) (definition : EnumDefinition) : Except Fault String := do
  let description ← descriptionText definition.description
  return line "from __future__ import annotations" ++ "\n" ++
    line "from enum import Enum" ++ "\n\n" ++
    line ("class " ++ entry.name ++ "(" ++ enumBases definition.valueType ++ "):") ++
    (match description with
      | some text => line ("    \"\"\"" ++ text ++ "\"\"\"") ++ "\n"
      | none => "") ++
    String.join (definition.members.map fun (name, value) =>
      line ("    " ++ name.inMessage ++ " = " ++ literal value)) ++
    (if definition.members.isEmpty then line "    pass" else "")

structure PackageModule where
  imports : List Import
  names : List String
deriving Repr, Inhabited

/-- The module that offers all types of a package. -/
def packageModule (outline : Outline) (package : Json) : Except Fault PackageModule := do
  let entries := outline.classesOf package ++ outline.enumsOf package
  let imports ← entries.mapM fun entry => importOf outline package entry.modelName
  return { imports, names := Text.sorted (entries.map (·.name)) }

def PackageModule.text (module : PackageModule) : String :=
  lines (module.imports.map Import.text) ++ "\n" ++ line "__all__ = [" ++
    lines (module.names.map fun name => "    \"" ++ name ++ "\",") ++ line "]"

def renderPackage (outline : Outline) (package : Json) : Except Fault String := do
  return (← packageModule outline package).text

/-! ## Files -/

def numberedEntries (outline : Outline) (package : Json) (classes : Bool) :
    List (TypeOutline × Nat) :=
  outline.entries.zipIdx.filter fun (entry, _) =>
    entry.isClass == classes && entry.package.equal package

/-- The files of a package: one for every class, one for every enum, and one for the package
itself if it has a name. -/
def filesOf (outline : Outline) (package : Json) : List GeneratedFile :=
  let typeFile (entry : TypeOutline × Nat) : GeneratedFile :=
    { package, fileName := moduleName entry.1.name ++ ".py", content := .entry entry.2 }
  (numberedEntries outline package true).map typeFile ++
    (numberedEntries outline package false).map typeFile ++
    (if package.isTruthy then [{ package, fileName := "__init__.py", content := .package }] else [])

def files (outline : Outline) : List GeneratedFile :=
  outline.packages.flatMap (filesOf outline)

def render (outline : Outline) (config : Config) (file : GeneratedFile) : Except Fault String :=
  match file.content with
  | .package => renderPackage outline file.package
  | .entry index =>
      match outline.entries[index]? with
      | none => .error .lacksPart
      | some entry =>
          match entry.target with
          | .ofClass definition => renderClass outline config entry definition
          | .ofEnum definition => renderEnum entry definition

end Python

end Typeloom
