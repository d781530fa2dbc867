import Typeloom.Model.TypeExpr

/-!
# Definitions of the model

The classes and enums that are generated from the schemas.  Every reference is resolved to the
name of a class or enum, and nothing depends on the target language.  What the schemas should
give as a text, but may give as any value, is kept as a value: the package, the description and
the names of enum members.
-/

namespace Typeloom

structure FieldDefinition where
  /-- The name of the property in JSON. -/
  name : String
  type : TypeExpr
  required : Bool
  /-- The value of a property that is not present. -/
  default? : Option Json
  description : Json
deriving Inhabited, Repr

structure ClassDefinition where
  name : String
  package : Json
  base : Option String
  fields : List FieldDefinition
  description : Json
  source : String
deriving Inhabited, Repr

structure EnumDefinition where
  name : String
  package : Json
  valueType : String
  members : List (Json × Json)
  description : Json
  /-- The document and the place in it from which the enum stems. -/
  source : String
deriving Inhabited, Repr

inductive TypeDefinition where
  | ofClass (definition : ClassDefinition)
  | ofEnum (definition : EnumDefinition)
deriving Inhabited, Repr

namespace TypeDefinition

def name : TypeDefinition → String
  | .ofClass definition => definition.name
  | .ofEnum definition => definition.name

def package : TypeDefinition → Json
  | .ofClass definition => definition.package
  | .ofEnum definition => definition.package

def source : TypeDefinition → String
  | .ofClass definition => definition.source
  | .ofEnum definition => definition.source

def class? : TypeDefinition → Option ClassDefinition
  | .ofClass definition => some definition
  | .ofEnum _ => none

def enum? : TypeDefinition → Option EnumDefinition
  | .ofClass _ => none
  | .ofEnum definition => some definition

end TypeDefinition

/-- The classes and enums of one compilation. -/
structure Model where
  classes : List ClassDefinition
  enums : List EnumDefinition
deriving Inhabited, Repr

/-- The model name under which a class or enum is found, if there is one of that name. -/
def Model.typeNamed? (model : Model) (name : String) : Option TypeDefinition :=
  let definitions :=
    model.classes.map TypeDefinition.ofClass ++ model.enums.map TypeDefinition.ofEnum
  definitions.find? (·.name = name)

end Typeloom
