import Typeloom.Encoding.Document
import Typeloom.Files.FileSystem
import Typeloom.Json.Access
import Typeloom.Json.Equality
import Typeloom.Text.Lines

/-!
# The generator configuration

The settings that a configuration file may hold.  A setting keeps whatever value the file gives
it; what it is used for decides whether that value will do.  Unknown settings are ignored.
-/

namespace Typeloom

structure Config where
  ignoreClasses : Json := .array []
  globalIgnoreFields : Json := .array []
  orderClasses : Json := .array []
  classNameReplacements : Json := .object []
  pythonKwOnly : Json := .bool true
  /-- The namespace of all C# files, unless it is that of the package. -/
  csharpNamespace : Json := .text ""
  /-- Further namespaces that every C# file uses. -/
  csharpAdditionalUsings : Json := .array []
deriving Inhabited, Repr

namespace Config

def ofMembers (members : Json.Members) : Config :=
  let standard : Config := {}
  let setting (key : String) (fallback : Json) : Json := (Table.get? members key).getD fallback
  { ignoreClasses := setting "ignore_classes" standard.ignoreClasses
    globalIgnoreFields := setting "global_ignore_fields" standard.globalIgnoreFields
    orderClasses := setting "order_classes" standard.orderClasses
    classNameReplacements := setting "class_name_replacements" standard.classNameReplacements
    pythonKwOnly := setting "python_kw_only" standard.pythonKwOnly
    csharpNamespace := setting "csharp_namespace" standard.csharpNamespace
    csharpAdditionalUsings := setting "csharp_additional_usings" standard.csharpAdditionalUsings }

def toJson (config : Config) : Json :=
  .object [
    ("ignore_classes", config.ignoreClasses),
    ("global_ignore_fields", config.globalIgnoreFields),
    ("order_classes", config.orderClasses),
    ("class_name_replacements", config.classNameReplacements),
    ("python_kw_only", config.pythonKwOnly),
    ("csharp_namespace", config.csharpNamespace),
    ("csharp_additional_usings", config.csharpAdditionalUsings)]

/-- The settings in the bytes of a file, which must hold an object. -/
def ofBytes (bytes : List UInt8) : Except Fault Config := do
  let text ← Encoding.utf8Text bytes
  match Json.read (String.ofList (Text.unifyLineEnds text.toList)) with
  | .ok (.object members) => return ofMembers members
  | .ok _ => throw (.invalid "the configuration must be a JSON object")
  | .error error => throw (.ofReadError error)

def ofFile (system : FileSystem) (name : String) : Except Fault Config := do
  if Path.isUnusableText name then throw (.invalid "embedded null byte")
  ofBytes (← (system.readNamed name).mapError .system)

end Config

/-- The generated names that are put for names of the model.  Neither need be a text. -/
abbrev Replacements := List (Json × Json)

namespace Replacements

/-- Put a generated name for a name. -/
def set (name replacement : Json) : Replacements → Replacements
  | [] => [(name, replacement)]
  | (name', replacement') :: rest =>
      if Json.same name' name then (name', replacement) :: rest
      else (name', replacement') :: set name replacement rest

/-- The generated name for a name of the model. -/
def nameFor (replacements : Replacements) (name : String) : Json :=
  match replacements.find? fun pair => pair.1.isText name with
  | some pair => pair.2
  | none => .text name

/-- The pair that an item of a list of replacements is. -/
def pairOf (index : Nat) (item : Json) : Except Fault (Json × Json) := do
  match ← item.elements with
  | [name, replacement] => return (← name.asKey, replacement)
  | parts =>
      throw (.invalid ("dictionary update sequence element #" ++ toString index ++
        " has length " ++ toString parts.length ++ "; 2 is required"))

/-- The replacements that a value of the configuration stands for: an object, or a list of pairs. -/
def ofJson : Json → Except Fault Replacements
  | .object members => .ok (members.map fun (name, replacement) => (.text name, replacement))
  | value => do
      let items ← value.elements
      let pairs ← items.zipIdx.mapM fun (item, index) => pairOf index item
      return pairs.foldl (fun table pair => set pair.1 pair.2 table) []

end Replacements

end Typeloom
