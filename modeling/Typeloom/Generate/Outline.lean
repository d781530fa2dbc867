import Typeloom.Json.Access
import Typeloom.Json.Display
import Typeloom.Model.Definition
import Typeloom.Text.Lines

/-!
# Outlines

An outline says under which name and in which package every class and enum of the model is
generated.  Extensions may adjust it before anything is rendered.
-/

namespace Typeloom

/-- A class or enum as it is generated. -/
structure TypeOutline where
  target : TypeDefinition
  name : String
  package : Json
  /-- Whether the instances of the class cannot be changed. -/
  frozen : Bool := false
  /-- Further lines above the class. -/
  annotations : List String := []
deriving Inhabited, Repr

namespace TypeOutline

def modelName (entry : TypeOutline) : String :=
  entry.target.name

def isClass (entry : TypeOutline) : Bool :=
  entry.target.class?.isSome

def fullName (entry : TypeOutline) : String :=
  if entry.package.isTruthy then entry.package.inMessage ++ "." ++ entry.name else entry.name

end TypeOutline

/-- The classes and enums of one compilation as they are generated, in the order in which they
were added. -/
structure Outline where
  entries : List TypeOutline := []
deriving Inhabited, Repr

namespace Outline

def classes (outline : Outline) : List TypeOutline :=
  outline.entries.filter (·.isClass)

def enums (outline : Outline) : List TypeOutline :=
  outline.entries.filter fun entry => !entry.isClass

def add (outline : Outline) (entry : TypeOutline) : Outline :=
  { entries := outline.entries ++ [entry] }

/-- The class or enum that was added last under a model name. -/
def resolve? (outline : Outline) (modelName : String) : Option TypeOutline :=
  outline.entries.reverse.find? (·.modelName = modelName)

/-- What is found under a model name is an entry with that model name. -/
theorem mem_of_resolve? {outline : Outline} {modelName : String} {entry : TypeOutline}
    (found : outline.resolve? modelName = some entry) :
    entry ∈ outline.entries ∧ entry.modelName = modelName :=
  ⟨List.mem_reverse.mp (List.mem_of_find?_eq_some found), by simpa using List.find?_some found⟩

theorem exists_resolve? {outline : Outline} {entry : TypeOutline}
    (isEntry : entry ∈ outline.entries) :
    ∃ found, outline.resolve? entry.modelName = some found := by
  cases result : outline.resolve? entry.modelName with
  | none =>
      have missing := List.find?_eq_none.mp result entry (List.mem_reverse.mpr isEntry)
      simp at missing
  | some found => exact ⟨found, rfl⟩

/-- The class under a model name, unless an enum was added later under the same name. -/
def class? (outline : Outline) (modelName : String) : Option TypeOutline :=
  (outline.resolve? modelName).filter (·.isClass)

/-- A list of values without those that are the same as an earlier one. -/
def distinctValues (values : List Json) : List Json :=
  values.foldl (fun kept value => if kept.any (Json.same value) then kept else kept ++ [value]) []

/-- The packages in the order of their first use, those of classes before those of enums. -/
def packages (outline : Outline) : List Json :=
  distinctValues ((outline.classes ++ outline.enums).map (·.package))

/-- The generated name of a class or enum, or the model name if it is unknown. -/
def typeName (outline : Outline) (modelName : String) : String :=
  match outline.resolve? modelName with
  | some entry => entry.name
  | none => modelName

def classesOf (outline : Outline) (package : Json) : List TypeOutline :=
  outline.classes.filter fun entry => entry.package.equal package

def enumsOf (outline : Outline) (package : Json) : List TypeOutline :=
  outline.enums.filter fun entry => entry.package.equal package

def mapClasses (change : TypeOutline → TypeOutline) (outline : Outline) : Outline :=
  { entries := outline.entries.map fun entry => if entry.isClass then change entry else entry }

/-- Change the last entry under a model name in a reversed list of entries. -/
def changeFirst (modelName : String) (change : TypeOutline → TypeOutline) :
    List TypeOutline → List TypeOutline
  | [] => []
  | entry :: rest =>
      if entry.modelName = modelName then change entry :: rest
      else entry :: changeFirst modelName change rest

/-- Change the class or enum that was added last under a model name, if there is one. -/
def changeType (modelName : String) (change : TypeOutline → TypeOutline) (outline : Outline) :
    Outline :=
  { entries := (changeFirst modelName change outline.entries.reverse).reverse }

/-- Change the class under a model name, if there is one. -/
def changeClass (modelName : String) (change : TypeOutline → TypeOutline) (outline : Outline) :
    Outline :=
  match outline.class? modelName with
  | none => outline
  | some _ => outline.changeType modelName change

end Outline

/-! ## Generated files

A unit is one generated file.  Its name and package are settled when it is registered, what it
holds only when it is rendered, so that a change of the outline in between has an effect. -/

inductive Content where
  /-- The class or enum with the given number among the entries of the outline. -/
  | entry (index : Nat)
  /-- The names that a package offers. -/
  | package
deriving DecidableEq, Repr, Inhabited

structure GeneratedFile where
  package : Json
  fileName : String
  content : Content
deriving Inhabited, Repr

/-- The path of a file of a package below the target directory. -/
def unitPath (package : Json) (fileName : String) : Except Fault String :=
  if package.isTruthy then do
    let name ← package.textOf
    return Text.replaceCharacter '.' '/' name ++ "/" ++ fileName
  else .ok fileName

def GeneratedFile.path (file : GeneratedFile) : Except Fault String :=
  unitPath file.package file.fileName

end Typeloom
