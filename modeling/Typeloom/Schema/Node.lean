import Typeloom.Json.Basic

/-!
# Schema nodes

A schema document becomes a tree of nodes: its definitions and, if the document itself describes
an object, a root.  References stay unresolved.  What a schema should give as a text or a number,
but may give as any value, is kept as a value.
-/

namespace Typeloom

/-- Where a node is in its document, and the keywords that do not decide its kind. -/
structure NodeInfo where
  /-- The path of the node in the document. -/
  pointer : String
  /-- The description, the default and the extension keywords. -/
  metadata : Json.Members := []
deriving Inhabited, Repr

namespace NodeInfo

def description (info : NodeInfo) : Json :=
  Json.memberOrNull info.metadata "description"

/-- The value that is used if none is given. -/
def default? (info : NodeInfo) : Option Json :=
  Table.get? info.metadata "default"

end NodeInfo

structure Property (α : Type) where
  info : NodeInfo
  name : String
  type : α
  required : Bool
  default? : Option Json
deriving Inhabited, Repr

structure Body (α : Type) where
  info : NodeInfo
  properties : List (Property α)
deriving Inhabited, Repr

structure Reference where
  info : NodeInfo
  target : Json
deriving Inhabited, Repr

inductive UnionKeyword where
  | oneOf
  | anyOf
  /-- A list of type names. -/
  | typeArray
deriving DecidableEq, Repr, Inhabited

def UnionKeyword.label : UnionKeyword → String
  | .oneOf => "oneOf"
  | .anyOf => "anyOf"
  | .typeArray => "typeArray"

inductive Node where
  /-- A type without structure, given by its name. -/
  | primitive (info : NodeInfo) (type : Json)
  /-- One value and the name of its type. -/
  | const (info : NodeInfo) (value : Json) (type : String)
  /-- Several values, the type of the first one, and names for their members. -/
  | enum (info : NodeInfo) (values : List Json) (type : String) (memberNames : Json)
  | ref (reference : Reference)
  /-- Any number of items of one type, or of any type. -/
  | array (info : NodeInfo) (item : Option Node) (minItems : Json)
  | tuple (info : NodeInfo) (items : List Node) (minItems : Json)
  | object (body : Body Node)
  /-- One of several alternatives. -/
  | union (info : NodeInfo) (keyword : UnionKeyword) (variants : List Node)
  /-- An object derived from another one, with properties of its own. -/
  | allOf (info : NodeInfo) (base : Option Reference) (extension : Option (Body Node))
deriving Inhabited, Repr

namespace Node

def info : Node → NodeInfo
  | .primitive info _ => info
  | .const info _ _ => info
  | .enum info _ _ _ => info
  | .ref reference => reference.info
  | .array info _ _ => info
  | .tuple info _ _ => info
  | .object body => body.info
  | .union info _ _ => info
  | .allOf info _ _ => info

def pointer (node : Node) : String :=
  node.info.pointer

/-- Whether a node describes an object with properties of its own. -/
def isObject : Node → Bool
  | .object _ => true
  | .allOf _ _ _ => true
  | _ => false

end Node

structure Definition where
  name : String
  pointer : String
  body : Node
deriving Inhabited, Repr

structure Document where
  systemId : String
  /-- The name of the type that the document itself describes. -/
  rootName : String
  /-- The object that the document itself describes. -/
  root : Option Node
  definitions : List Definition
  package : Json
deriving Inhabited, Repr

namespace Document

def definition? (document : Document) (name : String) : Option Definition :=
  document.definitions.find? (·.name = name)

end Document

end Typeloom
