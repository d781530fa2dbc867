import Typeloom.Generate.Outline
import Typeloom.Json.Writer
import Typeloom.Naming.Identifier
import Typeloom.Options.Config
import Typeloom.Text.Sorting

/-!
# C# files

Every class and every enum becomes a file.  A file uses the namespaces of the types it names, and
the namespace of its package is its own unless the configuration gives one for all.
-/

namespace Typeloom

namespace CSharp

/-! ## Names and types -/

def primitiveType (name : String) : String :=
  ([("integer", "long"), ("string", "string"), ("boolean", "bool"), ("number", "double"),
    ("null", "object")].lookup name).getD "object"

/-- A name in the spelling of types, or as it is if nothing of it would be left. -/
def memberSpelling (name : String) : String :=
  let spelled := Naming.pascalCase name
  Naming.escapeKeyword (if spelled.isEmpty then name else spelled)

def enumMemberName (name : Json) : Except Fault String :=
  if name.isTruthy then do return memberSpelling (← name.textOf)
  else .ok (Naming.escapeKeyword name.inMessage)

mutual

def typeText (outline : Outline) : TypeExpr → Except Fault String
  | ⟨.primitive, name, _, _⟩ => .ok (primitiveType name)
  | ⟨.classRef, name, _, _⟩ => .ok (outline.typeName name)
  | ⟨.enumRef, name, _, _⟩ => .ok (outline.typeName name)
  | ⟨.array, _, [], _⟩ => .ok "List<object>"
  | ⟨.array, _, item :: _, _⟩ => do return "List<" ++ (← typeText outline item) ++ ">"
  | ⟨.tuple, _, first :: second :: rest, _⟩ => do
      return "(" ++ ", ".intercalate (← typeTexts outline (first :: second :: rest)) ++ ")"
  | ⟨.tuple, _, _, _⟩ => .ok "List<object>"
  | ⟨.optional, _, [], _⟩ => .error .missingItem
  | ⟨.optional, _, inner :: _, _⟩ => do return (← typeText outline inner) ++ "?"
  | ⟨.literal, name, _, _⟩ => .ok (primitiveType name)
  | ⟨.union, _, _, _⟩ => .ok "object"
  | ⟨.any, _, _, _⟩ => .ok "object"

def typeTexts (outline : Outline) : List TypeExpr → Except Fault (List String)
  | [] => .ok []
  | type :: rest => do
      let text ← typeText outline type
      let texts ← typeTexts outline rest
      return text :: texts

end

/-! ## Default values -/

/-- The member of an enum that has a value, if there is one. -/
def enumDefault (outline : Outline) (modelName : String) (value : Json) :
    Except Fault (Option String) :=
  match outline.resolve? modelName with
  | none => .ok none
  | some entry =>
      match entry.target with
      | .ofClass _ => .error .lacksPart
      | .ofEnum definition =>
          match definition.members.find? fun member => member.2.equal value with
          | none => .ok none
          | some (name, _) => do return some (entry.name ++ "." ++ (← enumMemberName name))

/-- A default value of a type, if it has a literal form. -/
def defaultValue (outline : Outline) (value : Json) (type : TypeExpr) :
    Except Fault (Option String) :=
  let inner := type.withoutOptional
  match value with
  | .null => .ok (some "null")
  | _ =>
      if inner.kind = .enumRef then enumDefault outline inner.name value
      else
        match value with
        | .bool value => .ok (some (if value then "true" else "false"))
        | .text content => .ok (some (Json.quote content))
        | .number value => .ok (some (Number.writeBinary "inf" "nan" value ++ "d"))
        | .integer value =>
            let digits := Number.writeInteger value
            let isLong := inner.kind = .primitive && inner.name = "integer"
            .ok (some (if isLong then digits ++ "L" else digits))
        | .array [] => .ok (if inner.kind = .array then some "new()" else none)
        | _ => .ok none

/-! ## Parts of a file -/

/-- The namespace of the files of a package. -/
def namespaceOf (config : Config) (package : Json) : Json :=
  if config.csharpNamespace.isTruthy then config.csharpNamespace else package

/-- The namespaces that every class file uses. -/
def baseUsings : List String :=
  ["System", "System.Collections.Generic", "System.Text.Json.Serialization"]

/-- The namespaces of the classes and enums that a file of a package names, unless they are its
own. -/
def foreignNamespaces (outline : Outline) (config : Config) (package : Json)
    (modelNames : List String) : List Json :=
  let own := namespaceOf config package
  modelNames.filterMap fun name => do
    let target ← outline.resolve? name
    let namespaceName := namespaceOf config target.package
    if namespaceName.isTruthy && !namespaceName.equal own then some namespaceName else none

/-- The namespaces that a class file uses, in order. -/
def usings (outline : Outline) (config : Config) (package : Json) (modelNames : List String) :
    Except Fault (List String) := do
  let additional ← config.csharpAdditionalUsings.elements
  let names := additional ++ foreignNamespaces outline config package modelNames
  let texts ← names.mapM Json.joinableText
  return Text.sorted (baseUsings ++ texts).eraseDups

def line (text : String) : String :=
  text ++ "\n"

def lines (texts : List String) : String :=
  String.join (texts.map line)

def usingBlock (names : List String) : String :=
  lines (names.map fun name => "using " ++ name ++ ";") ++ "\n"

def namespaceBlock (name : Json) : String :=
  if name.isTruthy then line ("namespace " ++ name.inMessage ++ ";") ++ "\n" else ""

/-- The description of a type as a comment. -/
def summaryBlock (description : Json) : Except Fault String :=
  if description.isTruthy then
    match description with
    | .text content =>
        .ok (line "/// <summary>" ++
          lines ((Text.lines content.toList).map fun text => "/// " ++ String.ofList text) ++
          line "/// </summary>")
    | .object members =>
        .error (if Json.hasMember members "splitlines" then .wrongType else .undescribable)
    | _ => .error .undescribable
  else .ok ""

/-! ## Classes -/

/-- A property as it is declared. -/
structure Declared where
  jsonName : String
  declaration : String
  description : Json
deriving Repr, Inhabited

def propertyName (className field : String) : String :=
  let name := memberSpelling field
  if name = className then name ++ "Value" else name

def declareProperty (outline : Outline) (entry : TypeOutline) (field : FieldDefinition) :
    Except Fault Declared := do
  let modifiers :=
    if field.required && field.default?.isNone then "public required" else "public"
  let accessor := if entry.frozen then "\x7b get; init; \x7d" else "\x7b get; set; \x7d"
  let type ← typeText outline field.type
  let declared :=
    modifiers ++ " " ++ type ++ " " ++ propertyName entry.name field.name ++ " " ++ accessor
  let value ←
    match field.default? with
    | some value => defaultValue outline value field.type
    | none => pure none
  return {
    jsonName := Json.quote field.name
    declaration :=
      match value with
      | some text => declared ++ " = " ++ text ++ ";"
      | none => declared
    description := field.description }

def propertyText (property : Declared) : String :=
  let comment :=
    if property.description.isTruthy then
      line ("    /// <summary>" ++
        Text.replaceCharacter '\n' ' ' property.description.inMessage ++ "</summary>")
    else ""
  comment ++ line ("    [JsonPropertyName(" ++ property.jsonName ++ ")]") ++
    line ("    " ++ property.declaration)

def classHeader (outline : Outline) (entry : TypeOutline) (definition : ClassDefinition) :
    String :=
  let head := (if entry.frozen then "public sealed class " else "public class ") ++ entry.name
  match definition.base with
  | some base => head ++ " : " ++ outline.typeName base
  | none => head

def renderClass (outline : Outline) (config : Config) (entry : TypeOutline)
    (definition : ClassDefinition) : Except Fault String := do
  let properties ← definition.fields.mapM (declareProperty outline entry)
  let referenced :=
    (definition.fields.flatMap fun field => field.type.referencedNames) ++ definition.base.toList
  let used ← usings outline config entry.package referenced
  let summary ← summaryBlock definition.description
  return usingBlock used ++ namespaceBlock (namespaceOf config entry.package) ++ summary ++
    lines entry.annotations ++ line (classHeader outline entry definition) ++ line "\x7b" ++
    "\n".intercalate (properties.map propertyText) ++ line "\x7d"

/-! ## Enums -/

def memberText (valueType : String) (member : Json × Json) (index : Nat) :
    Except Fault String := do
  let name ← enumMemberName member.1
  let numbered (value : String) : String := line ("    " ++ name ++ " = " ++ value ++ ",")
  if valueType = "integer" then return numbered member.2.inMessage
  match member.2 with
  | .text content =>
      return line ("    [EnumMember(Value = " ++ Json.quote content ++ ")]") ++
        line ("    " ++ name ++ ",")
  | _ => return numbered (toString index)

def renderEnum (config : Config) (entry : TypeOutline) (definition : EnumDefinition) :
    Except Fault String := do
  let members ← definition.members.zipIdx.mapM fun (member, index) =>
    memberText definition.valueType member index
  let summary ← summaryBlock definition.description
  let converter :=
    if definition.valueType = "string" then
      line "[JsonConverter(typeof(JsonStringEnumConverter))]"
    else ""
  return usingBlock ["System.Runtime.Serialization", "System.Text.Json.Serialization"] ++
    namespaceBlock (namespaceOf config entry.package) ++ summary ++ converter ++
    line ("public enum " ++ entry.name) ++ line "\x7b" ++ String.join members ++ line "\x7d"

/-! ## Files -/

/-- The files of a package: one for every class and one for every enum. -/
def filesOf (outline : Outline) (package : Json) : List GeneratedFile :=
  let entries (classes : Bool) : List (TypeOutline × Nat) :=
    outline.entries.zipIdx.filter fun (entry, _) =>
      entry.isClass == classes && entry.package.equal package
  (entries true ++ entries false).map fun (entry, index) =>
    { package, fileName := entry.name ++ ".cs", content := .entry index }

def files (outline : Outline) : List GeneratedFile :=
  outline.packages.flatMap (filesOf outline)

def render (outline : Outline) (config : Config) (file : GeneratedFile) : Except Fault String :=
  match file.content with
  | .package => .ok ""
  | .entry index =>
      match outline.entries[index]? with
      | none => .error .lacksPart
      | some entry =>
          match entry.target with
          | .ofClass definition => renderClass outline config entry definition
          | .ofEnum definition => renderEnum config entry definition

end CSharp

end Typeloom
