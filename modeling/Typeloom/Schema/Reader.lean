import Typeloom.Json.Access
import Typeloom.Json.Display
import Typeloom.Report.Reporting
import Typeloom.Schema.Node
import Typeloom.Text.Pieces

/-!
# Reading schema documents

The nodes of one document are read from its JSON value.  Which keyword decides the kind of a node
does not depend on the order of the keywords.  A problem is reported at the path of the node that
has it, and reading goes on; only a keyword whose value has a shape that cannot be run through
ends it.
-/

namespace Typeloom

namespace SchemaReader

open Reporting

/-- The keywords that nothing is generated for. -/
def unsupportedKeywords : List String :=
  ["patternProperties", "if", "then", "else", "not", "dependencies", "dependentSchemas"]

/-- Report a problem at a place in a document. -/
def reportAt (systemId : String) (severity : Severity) (message pointer : String) :
    Reporting Unit :=
  report severity message (some systemId) (some pointer)

/-- Warn of the keywords of a node that nothing is generated for. -/
def warnUnsupported (systemId pointer : String) (members : Json.Members) : Reporting Unit :=
  (unsupportedKeywords.filter fun keyword => Json.hasMember members keyword).forM fun keyword =>
    reportAt systemId .warning ("unsupported keyword '" ++ keyword ++ "' is ignored") pointer

/-- The members of a node that do not decide its kind: those of extensions in their order, then
the description and the default. -/
def metadataOf (members : Json.Members) : Json.Members :=
  (members.filter fun member => Text.beginsWith member.1 "x-") ++
    ["description", "default"].filterMap fun key =>
      (Table.get? members key).map fun value => (key, value)

/-- The keyword that decides the kind of a node. -/
inductive Form where
  | reference (target : Json)
  | const (value : Json)
  | union (keyword : UnionKeyword)
  | derivation (parts : Json)
  | enumeration (values : Json)
  | typed (type : Json)
  | properties
  | unrestricted
deriving Inhabited

/-- The first keyword of a node that decides its kind, in the order of their precedence. -/
def formOf (members : Json.Members) : Form :=
  let given (key : String) (form : Json → Form) : Option Form :=
    (Table.get? members key).map form
  (given "$ref" .reference
    <|> given "const" .const
    <|> given "oneOf" (fun _ => .union .oneOf)
    <|> given "anyOf" (fun _ => .union .anyOf)
    <|> given "allOf" .derivation
    <|> given "enum" .enumeration
    <|> given "type" .typed
    <|> given "properties" fun _ => .properties).getD .unrestricted

/-- The type of a type keyword that is not a list of several types: a list of one type stands for
that type. -/
def singleType : Json → Json
  | .array [type] => type
  | type => type

mutual

def typeNode (pointer : String) : Json → Node
  | .array [] => .union { pointer } .typeArray []
  | .array [type] =>
      if type.isText "array" then .array { pointer } none .null
      else .primitive { pointer } type
  | .array (first :: second :: rest) =>
      .union { pointer } .typeArray (typeNodes pointer (first :: second :: rest))
  | type =>
      if type.isText "array" then .array { pointer } none .null
      else .primitive { pointer } type

def typeNodes (pointer : String) : List Json → List Node
  | [] => []
  | type :: rest =>
      typeNode (pointer ++ "/type/" ++ type.inMessage) type :: typeNodes pointer rest

end

def readEnumeration (systemId : String) (info : NodeInfo) (members : Json.Members)
    (values : Json) : Reporting Node := do
  let items ←
    match values with
    | .array (first :: rest) => pure (first :: rest)
    | _ => do
        reportAt systemId .error "enum must be a non-empty array" info.pointer
        pure []
  let type := (items.head?.map Json.schemaType).getD "string"
  return .enum info items type ((Table.get? members "x-enum-members").getD (.object []))

/-- The first part of a derivation, which must be a reference to the base.  No part at all is no
problem. -/
def readBase (systemId pointer : String) (parts : Json) : Reporting (Option Reference) := do
  let place := pointer ++ "/allOf/0"
  let first? ←
    match parts with
    | .array items => pure items.head?
    | .text content => pure (content.toList.head?.map fun character => .text character.toString)
    | .object [] => pure none
    | .object _ => fail .missingKey
    | other => if other.isTruthy then fail .wrongType else pure none
  match first? with
  | none => return none
  | some (.object members) =>
      match Table.get? members "$ref" with
      | some target => return some { info := { pointer := place }, target }
      | none => misplaced place
  | some _ => misplaced place
where
  /-- Report that the first part is no reference. -/
  misplaced (place : String) : Reporting (Option Reference) := do
    reportAt systemId .error "the first allOf entry must be a $ref to the base class" place
    return none

/-- The properties that a node demands, as values that can be compared with names. -/
def requiredOf (members : Json.Members) : Except Fault (List Json) :=
  ((Table.get? members "required").getD (.array [])).setElements

/-- The properties that a node declares. -/
def declaredOf (members : Json.Members) : Except Fault Json.Members :=
  ((Table.get? members "properties").getD (.object [])).membersOf

/-- Warn of the demanded properties that are not declared. -/
def warnUndeclared (systemId pointer : String) (required : List Json) (declared : Json.Members) :
    Reporting Unit :=
  required.forM fun name =>
    let known := (name.text?.map fun text => Json.hasMember declared text).getD false
    unless known do
      reportAt systemId .warning ("required property '" ++ name.inMessage ++ "' is not declared")
        pointer

/-- A property whose value is described by a node. -/
def propertyOf (pointer name : String) (required : List Json) (type : Node) : Property Node :=
  let description := type.info.description
  let metadata := if description.isTruthy then [("description", description)] else []
  { info := { pointer, metadata }
    name
    type
    required := required.any fun item => item.isText name
    default? := type.info.default? }

/-- The added part of a derivation: the properties of an object, and no property of anything
else. -/
def addedBody (pointer : String) : Node → Body Node
  | .object body => body
  | node => { info := { pointer, metadata := node.info.metadata }, properties := [] }

/-- The added part of a derivation together with the properties beside it. -/
def joinBodies (added siblings : Option (Body Node)) : Option (Body Node) :=
  match added, siblings with
  | none, other => other
  | some body, none => some body
  | some body, some more => some { body with properties := body.properties ++ more.properties }

mutual

def readNode (systemId pointer : String) : Json → Reporting Node
  | .object members => do
      warnUnsupported systemId pointer members
      let info : NodeInfo := { pointer, metadata := metadataOf members }
      match formOf members with
      | .reference target => return .ref { info, target }
      | .const value => return .const info value value.schemaType
      | .union keyword =>
          return .union info keyword
            (← readVariants systemId (pointer ++ "/" ++ keyword.label) keyword.label members)
      | .derivation parts =>
          let base ← readBase systemId pointer parts
          let count ← ofExcept parts.count
          let added ←
            if 2 ≤ count then readAdded systemId (pointer ++ "/allOf/1") members else pure none
          let siblings ←
            if Json.hasMember members "properties" then do
              let required ← ofExcept (requiredOf members)
              let declared ← ofExcept (declaredOf members)
              let properties ← readDeclared systemId pointer required members
              warnUndeclared systemId pointer required declared
              pure (some { info := { pointer }, properties })
            else pure none
          return .allOf info base (joinBodies added siblings)
      | .enumeration values => readEnumeration systemId info members values
      | .typed (.array []) => return .union info .typeArray []
      | .typed (.array (first :: second :: rest)) =>
          return .union info .typeArray (typeNodes pointer (first :: second :: rest))
      | .typed type =>
          let type := singleType type
          if type.isText "array" then
            readArray systemId pointer info (Json.memberOrNull members "minItems") members
          else if type.isText "object" && Json.hasMember members "properties" then do
            let required ← ofExcept (requiredOf members)
            let declared ← ofExcept (declaredOf members)
            let properties ← readDeclared systemId pointer required members
            warnUndeclared systemId pointer required declared
            return .object { info, properties }
          else return .primitive info type
      | .properties =>
          let required ← ofExcept (requiredOf members)
          let declared ← ofExcept (declaredOf members)
          let properties ← readDeclared systemId pointer required members
          warnUndeclared systemId pointer required declared
          return .object { info, properties }
      | .unrestricted => return .primitive info (.text "object")
  | _ => do
      reportAt systemId .error "expected a schema object" pointer
      return .primitive { pointer } (.text "object")

/-- Read the nodes of a list, the first of which has the given number. -/
def readNodes (systemId pointer : String) (index : Nat) : List Json → Reporting (List Node)
  | [] => return []
  | value :: rest => do
      let node ← readNode systemId (pointer ++ "/" ++ toString index) value
      let nodes ← readNodes systemId pointer (index + 1) rest
      return node :: nodes

/-- Read the alternatives under a keyword.  What has no items is no list of alternatives. -/
def readVariants (systemId pointer keyword : String) : Json.Members → Reporting (List Node)
  | [] => return []
  | (key, value) :: rest =>
      if key = keyword then
        match value with
        | .array items => readNodes systemId pointer 0 items
        | other => do
            let items ← ofExcept other.elements
            (items.zipIdx).mapM fun (_, index) => do
              let place := pointer ++ "/" ++ toString index
              reportAt systemId .error "expected a schema object" place
              return .primitive { pointer := place } (.text "object")
      else readVariants systemId pointer keyword rest

/-- Read the second part of a derivation. -/
def readAdded (systemId pointer : String) : Json.Members → Reporting (Option (Body Node))
  | [] => return none
  | (key, value) :: rest =>
      if key = "allOf" then
        match value with
        | .array (_ :: second :: _) => do
            let node ← readNode systemId pointer second
            return some (addedBody pointer node)
        | _ => do
            reportAt systemId .error "expected a schema object" pointer
            return some { info := { pointer }, properties := [] }
      else readAdded systemId pointer rest

def readArray (systemId pointer : String) (info : NodeInfo) (minItems : Json) :
    Json.Members → Reporting Node
  | [] => return .array info none minItems
  | (key, value) :: rest =>
      if key = "items" then
        match value with
        | .array items => do
            return .tuple info (← readNodes systemId (pointer ++ "/items") 0 items) minItems
        | .null => return .array info none minItems
        | item => do
            return .array info (some (← readNode systemId (pointer ++ "/items") item)) minItems
      else readArray systemId pointer info minItems rest

/-- Read the properties under the keyword for them. -/
def readDeclared (systemId pointer : String) (required : List Json) :
    Json.Members → Reporting (List (Property Node))
  | [] => return []
  | (key, value) :: rest =>
      if key = "properties" then
        match value with
        | .object declared => readProperties systemId pointer required declared
        | _ => return []
      else readDeclared systemId pointer required rest

def readProperties (systemId pointer : String) (required : List Json) :
    Json.Members → Reporting (List (Property Node))
  | [] => return []
  | (name, value) :: rest => do
      let place := pointer ++ "/properties/" ++ name
      let type ← readNode systemId place value
      let properties ← readProperties systemId pointer required rest
      return propertyOf place name required type :: properties

end

/-- The keyword under which a document keeps its definitions. -/
def definitionsKeyword (members : Json.Members) : String :=
  if Json.hasMember members "$defs" then "$defs" else "definitions"

/-- Whether an entry among the definitions is a remark. -/
def isRemark (name : String) (body : Json) : Bool :=
  body.text?.isSome || Text.beginsWith name "_comment"

def readDefinitions (systemId keyword : String) : Json.Members → Reporting (List Definition)
  | [] => return []
  | (name, body) :: rest => do
      poll
      let pointer := "#/" ++ keyword ++ "/" ++ name
      if isRemark name body then readDefinitions systemId keyword rest
      else
        match body with
        | .object members => do
            let node ← readNode systemId pointer (.object members)
            let definitions ← readDefinitions systemId keyword rest
            return { name, pointer, body := node } :: definitions
        | _ => do
            reportAt systemId .error ("definition '" ++ name ++ "' is not a schema object") pointer
            readDefinitions systemId keyword rest

/-- The members of an object that may be missing. -/
def optionalMembers (value : Json) : Except Fault Json.Members :=
  if value.isTruthy then value.membersOf else .ok []

def readDocument (systemId rootName : String) (value : Json) : Reporting Document := do
  let members ← ofExcept value.membersOf
  let keyword := definitionsKeyword members
  let entries ← ofExcept (optionalMembers (Json.memberOrNull members keyword))
  let definitions ← readDefinitions systemId keyword entries
  let root ←
    if Json.hasMember members "properties" || Json.hasMember members "allOf" then
      some <$> readNode systemId "#" value
    else pure none
  return { systemId, rootName, root, definitions
           package := Json.memberOrNull members "x-package" }

end SchemaReader

end Typeloom
