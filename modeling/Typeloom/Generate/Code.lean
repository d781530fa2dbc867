import Typeloom.Generate.Extension
import Typeloom.Options.Mode
import Typeloom.Render.CSharp
import Typeloom.Render.Python
import Typeloom.Text.Pieces

/-!
# Generated code

The classes and enums of a model get their generated names, one outline is made of them, and the
files that hold them are settled.  Two types of a package must not have names that differ at most
in case, because their files might be the same.
-/

namespace Typeloom

structure GenerationSettings where
  language : TargetLanguage := .python
  config : Config := {}
  /-- The generated names that are put for names of the model. -/
  replacements : Replacements := []
deriving Inhabited, Repr

def TargetLanguage.files : TargetLanguage → Outline → List GeneratedFile
  | .python => Python.files
  | .csharp => CSharp.files

def TargetLanguage.render : TargetLanguage → Outline → Config → GeneratedFile →
    Except Fault String
  | .python => Python.render
  | .csharp => CSharp.render

/-- Generated code: its outline and its files, whose texts depend on the outline as it is when
they are rendered. -/
structure GeneratedCode where
  outline : Outline
  files : List GeneratedFile
deriving Inhabited, Repr

namespace GeneratedCode

open Reporting

/-- The place of a name in the preferred order.  All names that are not in it come after those
that are. -/
def positionIn (order : List Json) (name : String) : Nat :=
  (order.zipIdx.filter fun (preferred, _) => preferred.isText name).getLast?.elim order.length
    Prod.snd

/-- The classes in the order in which they are generated: those that are preferred first. -/
def orderedClasses (config : Config) (classes : List ClassDefinition) :
    Except Fault (List ClassDefinition) :=
  if config.orderClasses.isTruthy then do
    let order ← config.orderClasses.setElements
    return Text.sortedByNumber (fun definition => positionIn order definition.name) classes
  else .ok classes

/-- A name that is taken: the package, the name in small letters and the place of the type. -/
structure TakenName where
  package : Json
  /-- The name in small letters. -/
  name : String
  /-- The place from which the type stems. -/
  source : String
deriving Inhabited, Repr

/-- The place of the last type that took a name in a package, if there is one. -/
def ownerOf? (taken : List TakenName) (package : Json) (name : String) : Option String :=
  (taken.reverse.find? fun entry => Json.same entry.package package && entry.name = name).map
    TakenName.source

/-- Report that a name is generated twice. -/
def reportCollision (name : String) (definition : TypeDefinition) (owner : String) :
    Reporting Unit :=
  let address := Text.before '#' definition.source
  report .error
    (name ++ " is generated twice in package '" ++ definition.package.inMessage ++
      "' (also from " ++ owner ++ ")")
    (if address.isEmpty then none else some address)
    ((Text.after? '#' definition.source).map ("#" ++ ·))

/-- Name a class or enum and add it to the outline. -/
def addDefinition (replacements : Replacements) (state : Outline × List TakenName)
    (definition : TypeDefinition) : Reporting (Outline × List TakenName) := do
  let (outline, taken) := state
  let name ← ofExcept (replacements.nameFor definition.name).textOf
  let package ← ofExcept definition.package.asKey
  let key := Unicode.lower name
  match ownerOf? taken package key with
  | some owner => reportCollision name definition owner
  | none => pure ()
  return (outline.add { target := definition, name, package },
    taken ++ [{ package, name := key, source := definition.source }])

def outlineOf (settings : GenerationSettings) (model : Model) : Reporting Outline := do
  let classes ← ofExcept (orderedClasses settings.config model.classes)
  let definitions :=
    classes.map TypeDefinition.ofClass ++ model.enums.map TypeDefinition.ofEnum
  let (outline, _) ← definitions.foldlM (addDefinition settings.replacements) ({}, [])
  return outline

/-- The code of a model before any extension has changed it, or nothing if an error is
reported. -/
def ofModel (settings : GenerationSettings) (model : Model) :
    Reporting (Option GeneratedCode) := do
  let (outline, hadError) ← watching (outlineOf settings model)
  return if hadError then none else some { outline, files := settings.language.files outline }

/-- The code of a model as the extensions leave it, or nothing if anything fails. -/
def generate (settings : GenerationSettings) (extensions : List Extension) (model : Model) :
    Reporting (Option GeneratedCode) := do
  match ← ofModel settings model with
  | none => return none
  | some code => do
      let outline? ← Extension.outlineAfter extensions code.outline
      return outline?.map fun outline => { code with outline }

def render (settings : GenerationSettings) (code : GeneratedCode) (file : GeneratedFile) :
    Except Fault String :=
  settings.language.render code.outline settings.config file

end GeneratedCode

end Typeloom
