import Typeloom.Json.Access
import Typeloom.Schema.Node
import Typeloom.Uri.Reference

/-!
# Libraries

A library holds the documents of one compilation in the order in which they were loaded.  A
reference is resolved from one of its documents to the root or a definition of that or another
document.
-/

namespace Typeloom

structure Library where
  documents : List Document
deriving Inhabited, Repr

/-- The place of a node in a library: the number of its document, and the number of its
definition unless it is the root. -/
structure Address where
  document : Nat
  definition : Option Nat
deriving DecidableEq, Repr, Inhabited

/-- What a reference points at. -/
structure Target where
  address : Address
  document : Document
  /-- The name of the definition, or the key of the root. -/
  key : String
  node : Node
deriving Inhabited, Repr

structure NamedNode where
  name : String
  address : Address
  document : Document
  node : Node
deriving Inhabited, Repr

namespace Library

/-- The key of the root of a document beside those of its definitions. -/
def rootKey : String := "#"

def indexOf? (library : Library) (systemId : String) : Option Nat :=
  library.documents.findIdx? (·.systemId = systemId)

def document? (library : Library) (systemId : String) : Option Document :=
  library.documents.find? (·.systemId = systemId)

/-- The place in a document that a reference names. -/
def fragmentOf (target : String) : List Char :=
  if Text.beginsWith target "#" then target.toList
  else '#' :: (Text.cut '#' target.toList).2.getD []

/-- The name of the definition that a place in a document is, if it is one. -/
def definitionName? (fragment : List Char) : Option String :=
  match Text.pieces '/' fragment with
  | [_, keyword, name] =>
      if keyword = "definitions".toList || keyword = "$defs".toList then some (String.ofList name)
      else none
  | _ => none

/-- Whether a place in a document is the root. -/
def isRootFragment (fragment : List Char) : Bool :=
  fragment = ['#'] || fragment = ['#', '/']

/-- What is at a place in a document. -/
def targetIn (index : Nat) (document : Document) (fragment : List Char) : Option Target :=
  if isRootFragment fragment then
    document.root.map fun node => { address := ⟨index, none⟩, document, key := rootKey, node }
  else do
    let name ← definitionName? fragment
    let definition ← document.definition? name
    let number ← document.definitions.findIdx? (·.name = name)
    return { address := ⟨index, some number⟩, document, key := definition.name
             node := definition.body }

/-- The number of the document that a reference from a document points at. -/
def documentIndex? (library : Library) (origin : Nat) (systemId target : String) :
    Except Fault (Option Nat) := do
  if Text.beginsWith target "#" then return some origin
  return library.indexOf? (← Uri.documentOf systemId target)

/-- What a reference from a document points at. -/
def resolveText (library : Library) (origin : Nat) (target : String) :
    Except Fault (Option Target) := do
  match library.documents[origin]? with
  | none => return none
  | some referring =>
      match ← library.documentIndex? origin referring.systemId target with
      | none => return none
      | some index =>
          match library.documents[index]? with
          | none => return none
          | some document => return targetIn index document (fragmentOf target)

/-- What a reference from a document points at.  The reference must be a text. -/
def resolve (library : Library) (origin : Nat) (reference : Reference) :
    Except Fault (Option Target) := do
  let target ← reference.target.textOf
  library.resolveText origin target

/-- The roots and definitions of a document with their names. -/
def namedNodesOf (index : Nat) (document : Document) : List NamedNode :=
  let roots := document.root.toList.map fun node =>
    { name := document.rootName, address := ⟨index, none⟩, document, node : NamedNode }
  let definitions := document.definitions.zipIdx.map fun (definition, number) =>
    { name := definition.name, address := ⟨index, some number⟩, document
      node := definition.body : NamedNode }
  roots ++ definitions

def namedNodes (library : Library) : List NamedNode :=
  library.documents.zipIdx.flatMap fun (document, index) => namedNodesOf index document

end Library

end Typeloom
