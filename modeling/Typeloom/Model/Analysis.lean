import Typeloom.Json.Access
import Typeloom.Json.Display
import Typeloom.Model.Definition
import Typeloom.Naming.Identifier
import Typeloom.Report.Reporting
import Typeloom.Schema.Library

/-!
# Analysis

The analysis turns the documents of a library into the classes and enums of a model.  First every
root and definition is declared, so that references resolve in any order; then the classes and
enums are built.  Objects and enums inside of a class become classes and enums of their own with
fresh names, and a reference to a definition that is neither is replaced by what it defines.
-/

namespace Typeloom

namespace Analysis

open Reporting

/-- The key of a declaration: the address of its document and its name there. -/
abbrev Key := String × String

/-- What a declaration is generated as. -/
inductive Kind where
  | classDefinition
  | enumDefinition
  /-- Nothing: what is declared stands where it is referred to. -/
  | alias
deriving DecidableEq, Repr, Inhabited

/-- A named node with the name it has in the model. -/
structure Declaration where
  name : String
  document : Nat
  systemId : String
  key : String
  node : Node
  package : Json
deriving Inhabited, Repr

def Declaration.kind (declaration : Declaration) : Kind :=
  match declaration.node with
  | .object _ => .classDefinition
  | .allOf _ _ _ => .classDefinition
  | .enum _ _ _ _ => .enumDefinition
  | _ => .alias

def Declaration.source (declaration : Declaration) : String :=
  declaration.systemId ++ declaration.node.pointer

structure Request where
  /-- The package of all documents, unless each has its own. -/
  package : Option String := none
  ignoredClasses : List Json := []
  ignoredFields : List Json := []
deriving Inhabited, Repr

structure State where
  declarations : Table Key Declaration := []
  /-- The names of the classes and enums, each with its source. -/
  names : Table String String := []
  /-- The classes, in the order in which their building began. -/
  classes : List ClassDefinition := []
  enums : List EnumDefinition := []
deriving Inhabited, Repr

abbrev Step (α : Type) := StateT State (ExceptT Stop (StateM Channel)) α

def isListed (name : String) (values : List Json) : Bool :=
  values.any fun value => value.isText name

def defaultPackage : String := "generated"

def packageOf (request : Request) (document : Document) : Json :=
  match request.package with
  | some package => .text package
  | none => if document.package.isTruthy then document.package else .text defaultPackage

/-- Report a problem at a place in a document. -/
def reportAt (severity : Severity) (message systemId pointer : String) : Step Unit :=
  liftM (report severity message (some systemId) (some pointer))

/-- The value of a computation that cannot report, or its fault. -/
def orFault {α : Type} (result : Except Fault α) : Step α :=
  liftM (ofExcept result)

/-! ## Declarations -/

def declare (request : Request) (document : Nat) (systemId key rawName : String) (node : Node)
    (package : Json) : Step Unit := do
  let name := Naming.pascalCase rawName
  if isListed key request.ignoredClasses || isListed name request.ignoredClasses then return
  if name.isEmpty then
    reportAt .error ("cannot derive a class name from '" ++ rawName ++ "'") systemId node.pointer
    return
  let declaration : Declaration := { name, document, systemId, key, node, package }
  let state ← get
  if declaration.kind ≠ .alias then
    match Table.get? state.names name with
    | some source =>
        reportAt .error
          ("class name '" ++ name ++ "' collides with the declaration at " ++ source)
          systemId node.pointer
        return
    | none => modify fun state =>
        { state with names := Table.set name declaration.source state.names }
  modify fun state =>
    { state with declarations := Table.set (systemId, key) declaration state.declarations }

def declareDocument (request : Request) (index : Nat) (document : Document) : Step Unit := do
  let package := packageOf request document
  if let some root := document.root then
    declare request index document.systemId Library.rootKey document.rootName root package
  document.definitions.forM fun definition =>
    declare request index document.systemId definition.name definition.name definition.body package

/-! ## Names -/

/-- The least number from two on with which a name is not taken. -/
def freshNumber (names : Table String String) (base : String) : Nat :=
  ((List.range (names.length + 1)).find? fun number =>
    !Table.contains names (base ++ toString (number + 2))).getD names.length + 2

/-- A name that is not taken: the given one, or else the given one with the least number. -/
def freshName (names : Table String String) (base : String) : String :=
  if Table.contains names base then base ++ toString (freshNumber names base) else base

/-- Take a name that is not taken yet. -/
def takeName (base source : String) : Step String := do
  let state ← get
  let name := freshName state.names base
  set { state with names := Table.set name source state.names }
  return name

/-! ## Enums -/

/-- The name of the member for a value, unless the schema gives one. -/
def derivedMemberName : Json → String
  | .text value => Naming.memberNameOfText value
  | value => Naming.memberNameOfWritten value.inMessage

def memberName (memberNames value : Json) : Except Fault Json := do
  let given := Json.memberOrNull (← memberNames.membersOf) value.inMessage
  if given.isTruthy then given.asKey else return .text (derivedMemberName value)

/-- Set the value of a member: in its place if there is a member of that name. -/
def setMember (name value : Json) : List (Json × Json) → List (Json × Json)
  | [] => [(name, value)]
  | (name', value') :: rest =>
      if Json.same name' name then (name', value) :: rest
      else (name', value') :: setMember name value rest

/-- Add a member.  A name that is in use gets the number of members behind it. -/
def addMember (memberNames : Json) (members : List (Json × Json)) (value : Json) :
    Except Fault (List (Json × Json)) := do
  let name ← memberName memberNames value
  let name :=
    if members.any fun member => Json.same member.1 name then
      .text (name.inMessage ++ "_" ++ toString members.length)
    else name
  return setMember name value members

def membersOf (memberNames : Json) (values : List Json) : Except Fault (List (Json × Json)) :=
  values.foldlM (addMember memberNames) []

def buildEnum (name systemId : String) (package : Json) (info : NodeInfo) (values : List Json)
    (valueType : String) (memberNames : Json) : Step Unit := do
  let members ← orFault (membersOf memberNames values)
  let definition : EnumDefinition :=
    { name, package, valueType, members, description := info.description
      source := systemId ++ info.pointer }
  modify fun state => { state with enums := state.enums ++ [definition] }

/-! ## Classes and types -/

/-- Where a type stands: the number and the address of the document, the package, and the class
and the property whose names it takes for what it holds. -/
structure Site where
  document : Nat
  systemId : String
  package : Json
  /-- The class the type belongs to. -/
  owner : String
  /-- The property whose type it is. -/
  property : String
deriving Inhabited, Repr

/-- The name on which the name of a class or enum at a site is based. -/
def Site.baseName (site : Site) : String :=
  site.owner ++ Naming.pascalCase site.property

/-- What a type expression for a property is wrapped in. -/
def fieldType (property : Property Node) (type : TypeExpr) : TypeExpr :=
  if property.required || property.default?.isSome then type else type.optional

def fieldOf (property : Property Node) (type : TypeExpr) : FieldDefinition :=
  { name := property.name
    type := fieldType property type
    required := property.required
    default? := property.default?
    description := property.info.description }

/-- Build a class from its base and its fields.  The class keeps the place that is the next one
when its building begins. -/
def buildClass (name systemId : String) (package : Json) (info : NodeInfo)
    (base : Step (Option String)) (fields : Step (List FieldDefinition)) : Step Unit := do
  let place := (← get).classes.length
  reportAt .info ("generating class " ++ name) systemId info.pointer
  let base ← base
  let fields ← fields
  let definition : ClassDefinition :=
    { name, package, base, fields, description := info.description
      source := systemId ++ info.pointer }
  modify fun state => { state with classes := state.classes.insertIdx place definition }

def primitiveTypes : List String := ["string", "integer", "number", "boolean", "null"]

def primitiveType (site : Site) (info : NodeInfo) (type : Json) : Step TypeExpr := do
  if type.isText "object" then return .anything
  let key ← orFault type.asKey
  match key.text?.filter fun name => primitiveTypes.contains name with
  | some name => return .primitive name
  | none =>
      reportAt .error ("unknown type '" ++ type.inMessage ++ "'") site.systemId info.pointer
      return .anything

/-- The type that admits the values of types that are different and not null. -/
def anyOf : List TypeExpr → TypeExpr
  | [] => .primitive "null"
  | [type] => type
  | several => .unionOf several

/-- The type that admits the values of several types: null is pulled out, and a type that occurs
twice counts once. -/
def unionType (types : List TypeExpr) : TypeExpr :=
  let variants := TypeExpr.distinct (types.filter fun type => !type.isNull)
  if types.any TypeExpr.isNull && !variants.isEmpty then (anyOf variants).optional
  else anyOf variants

/-- What is needed to translate nodes. -/
structure Setting where
  library : Library
  request : Request
deriving Inhabited, Repr

def Setting.packageAt (setting : Setting) (document : Nat) : Json :=
  match setting.library.documents[document]? with
  | some document => packageOf setting.request document
  | none => .null

/-- The type for a reference.  `follow` gives the type for a declaration that is an alias, and
`resolving` holds the aliases that are being followed. -/
def translateReference (setting : Setting) (follow : List Key → Declaration → Step TypeExpr)
    (resolving : List Key) (site : Site) (reference : Reference) : Step TypeExpr := do
  let shown := reference.target.inMessage
  match ← orFault (setting.library.resolve site.document reference) with
  | none =>
      reportAt .error ("undefined reference '" ++ shown ++ "'") site.systemId
        reference.info.pointer
      return .anything
  | some target =>
      let key := (target.document.systemId, target.key)
      match Table.get? (← get).declarations key with
      | none => return .anything
      | some declaration =>
          match declaration.kind with
          | .classDefinition => return .instanceOf declaration.name
          | .enumDefinition => return .memberOf declaration.name
          | .alias =>
              if resolving.contains key then
                reportAt .error ("circular reference '" ++ shown ++ "'") site.systemId
                  reference.info.pointer
                return .anything
              follow (resolving ++ [key]) declaration

/-- The model name of the base of a derivation. -/
def translateBase (setting : Setting) (follow : List Key → Declaration → Step TypeExpr)
    (resolving : List Key) (site : Site) (pointer : String) :
    Option Reference → Step (Option String)
  | none => return none
  | some reference => do
      let type ←
        translateReference setting follow resolving { site with owner := "", property := "" }
          reference
      if type.kind = .classRef then return some type.name
      reportAt .error
        ("allOf base '" ++ reference.target.inMessage ++ "' is not an object definition")
        site.systemId pointer
      return none

mutual

/-- The type for a node.  The classes and enums in it are built on the way. -/
def translateNode (setting : Setting) (follow : List Key → Declaration → Step TypeExpr)
    (resolving : List Key) (site : Site) : Node → Step TypeExpr
  | .ref reference => translateReference setting follow resolving site reference
  | .primitive info type => primitiveType site info type
  | .const _ value type => return .literal type value
  | .enum info values valueType memberNames => do
      let name ← takeName site.baseName (site.systemId ++ info.pointer)
      buildEnum name site.systemId site.package info values valueType memberNames
      return .memberOf name
  | .object body => do
      let name ← takeName site.baseName (site.systemId ++ body.info.pointer)
      buildClass name site.systemId site.package body.info (return none)
        (translateProperties setting follow resolving { site with owner := name } body.properties)
      return .instanceOf name
  | .allOf info base extension => do
      let name ← takeName site.baseName (site.systemId ++ info.pointer)
      buildClass name site.systemId site.package info
        (translateBase setting follow resolving site info.pointer base)
        (match extension with
          | some body =>
              translateProperties setting follow resolving { site with owner := name }
                body.properties
          | none => return [])
      return .instanceOf name
  | .array _ none _ => return .listOf .anything
  | .array _ (some item) _ =>
      return .listOf (← translateNode setting follow resolving site item)
  | .tuple _ items _ => return .tupleOf (← translateNodes setting follow resolving site items)
  | .union _ _ variants => do
      return unionType (← translateNodes setting follow resolving site variants)

def translateNodes (setting : Setting) (follow : List Key → Declaration → Step TypeExpr)
    (resolving : List Key) (site : Site) : List Node → Step (List TypeExpr)
  | [] => return []
  | node :: rest => do
      let type ← translateNode setting follow resolving site node
      let types ← translateNodes setting follow resolving site rest
      return type :: types

/-- The fields for the properties of the owner of a site. -/
def translateProperties (setting : Setting) (follow : List Key → Declaration → Step TypeExpr)
    (resolving : List Key) (site : Site) : List (Property Node) → Step (List FieldDefinition)
  | [] => return []
  | property :: rest =>
      if isListed property.name setting.request.ignoredFields then
        translateProperties setting follow resolving site rest
      else do
        let type ←
          translateNode setting follow resolving { site with property := property.name }
            property.type
        let fields ← translateProperties setting follow resolving site rest
        return fieldOf property type :: fields

end

def Declaration.site (setting : Setting) (declaration : Declaration) : Site :=
  { document := declaration.document
    systemId := declaration.systemId
    package := setting.packageAt declaration.document
    owner := declaration.name
    property := "" }

/-- The type for a declaration that is an alias, through at most as many further aliases as the
first number says. -/
def followAlias (setting : Setting) : Nat → List Key → Declaration → Step TypeExpr
  | 0, _, _ => return .anything
  | depth + 1, resolving, declaration =>
      translateNode setting (followAlias setting depth) resolving (declaration.site setting)
        declaration.node

def buildDeclaration (setting : Setting) (depth : Nat) (declaration : Declaration) :
    Step Unit := do
  liftM poll
  let site := declaration.site setting
  let follow := followAlias setting depth
  match declaration.node with
  | .object body =>
      buildClass declaration.name declaration.systemId declaration.package body.info (return none)
        (translateProperties setting follow [] site body.properties)
  | .allOf info base extension =>
      buildClass declaration.name declaration.systemId declaration.package info
        (translateBase setting follow [] site info.pointer base)
        (match extension with
          | some body => translateProperties setting follow [] site body.properties
          | none => return [])
  | .enum info values valueType memberNames =>
      buildEnum declaration.name declaration.systemId declaration.package info values valueType
        memberNames
  | node =>
      reportAt .info
        ("definition '" ++ declaration.key ++
          "' is an alias of a built-in type; no class is generated")
        declaration.systemId node.pointer

/-! ## Inheritance -/

/-- Whether a chain of bases that has run through `seen` comes back to one of them, followed for
at most as many steps as the first number says. -/
def returns (classes : List ClassDefinition) : Nat → List String → Option String → Bool
  | 0, _, _ => false
  | _, _, none => false
  | steps + 1, seen, some base =>
      seen.contains base ||
        match classes.find? (·.name = base) with
        | none => false
        | some next => returns classes steps (base :: seen) next.base

/-- Cut the bases of the classes, from a number on, whose chain of bases comes back to itself, and
report them. -/
def cutCycles : Nat → List ClassDefinition → Step (List ClassDefinition)
  | index, classes =>
      (List.range' index (classes.length - index)).foldlM
        (fun classes place =>
          match classes[place]? with
          | none => return classes
          | some definition =>
              if returns classes (classes.length + 1) [definition.name] definition.base then do
                liftM (report .error ("class " ++ definition.name ++ " inherits from itself")
                  (some (Text.before '#' definition.source)) none)
                return classes.set place { definition with base := none }
              else return classes)
        classes

/-! ## The analysis -/

/-- Analyze the documents of a library. -/
def analysis (setting : Setting) : Step Unit := do
  setting.library.documents.zipIdx.forM fun (document, index) =>
    declareDocument setting.request index document
  let declarations := Table.values (← get).declarations
  declarations.forM (buildDeclaration setting (declarations.length + 1))
  let classes ← cutCycles 0 (← get).classes
  modify fun state => { state with classes }

/-- What has been found when the documents of a library are analyzed. -/
def analyze (library : Library) (request : Request) : Reporting State := do
  let (_, state) ← (analysis { library, request }).run {}
  return state

def State.model (state : State) : Model :=
  { classes := state.classes, enums := state.enums }

end Analysis

end Typeloom
