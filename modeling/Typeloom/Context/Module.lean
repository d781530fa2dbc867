import Typeloom.Context.StandardModule
import Typeloom.Files.FileSystem
import Typeloom.Generate.Extension
import Typeloom.Text.Pieces

/-!
# Modules with extensions

An extension may be asked for by the name of a module and the name of a class in it.  Modules are
looked for in given directories first, and then among those that come with the compiler.  A module
in a file of the user offers nothing that is known here.
-/

namespace Typeloom

inductive ModuleMember where
  | extension (extension : Extension)
  /-- What all extensions have in common, which is none by itself. -/
  | abstractExtension
  | other

inductive LoadProblem where
  /-- A text does not name a module and a class. -/
  | badSpecification (specification : String)
  /-- A name is relative to a module that is not given. -/
  | relativeName (name : String)
  | noModule (name : String)
  /-- A module that has no modules below it is asked for one. -/
  | noPackage (name parent : String)
  /-- A module has no member of the name. -/
  | noMember (moduleName name : String)
deriving DecidableEq, Repr, Inhabited

namespace LoadProblem

def describe : LoadProblem → String
  | .badSpecification specification => "expected module:Class, got '" ++ specification ++ "'"
  | .relativeName name =>
      "the 'package' argument is required to perform a relative import for " ++ Text.quoted name
  | .noModule name => "No module named " ++ Text.quoted name
  | .noPackage name parent =>
      "No module named " ++ Text.quoted name ++ "; " ++ Text.quoted parent ++
        " is not a package"
  | .noMember moduleName name =>
      "module " ++ Text.quoted moduleName ++ " has no attribute " ++ Text.quoted name

def fault : LoadProblem → Fault
  | .badSpecification specification =>
      .invalid (LoadProblem.badSpecification specification).describe
  | .relativeName _ => .wrongType
  | .noModule name => .missingModule (LoadProblem.noModule name).describe
  | .noPackage name parent => .missingModule (LoadProblem.noPackage name parent).describe
  | .noMember _ _ => .lacksPart

end LoadProblem

/-- A module as far as it matters here: its names. -/
structure ExtensionModule where
  form : ModuleForm
  names : List String
deriving DecidableEq, Repr, Inhabited

namespace ExtensionModule

/-- What a name of a module of the compiler stands for.  The same name stands for the same thing
in all of them. -/
def meaning (name : String) : ModuleMember :=
  if name = "Plugin" then .abstractExtension
  else if name = "FrozenClassesPlugin" then .extension Extension.frozenClasses
  else .other

def member? (extensionModule : ExtensionModule) (name : String) : Option ModuleMember :=
  if extensionModule.names.contains name then some (meaning name)
  else if extensionModule.form.names.contains name then some .other
  else none

/-- The beginnings of a list, from the shortest to the longest, but not the empty one. -/
def beginnings {α : Type} (items : List α) : List (List α) :=
  (List.range items.length).map fun count => items.take (count + 1)

/-- Follow the names of a module and of the modules above it, which stand one below the other from
the outermost one on.  `above` is the last module that was found. -/
def descend (above : Option StandardModule) :
    List String → Except LoadProblem (Option StandardModule)
  | [] => .ok above
  | name :: rest =>
      match StandardModule.find? name with
      | some found => descend (some found) rest
      | none =>
          match above with
          | some outer =>
              if outer.form.mayHaveModules then .error (.noModule name)
              else .error (.noPackage name outer.fullName)
          | none => .error (.noModule name)

def ofStandard (name : String) : Except LoadProblem ExtensionModule := do
  let names := (beginnings (Text.pieces '.' name.toList)).map fun parts =>
    String.ofList (Text.joined '.' parts)
  match ← descend none names with
  | some found => return { form := found.form, names := found.names }
  | none => throw (.noModule name)

/-- The form of the module of the user that a directory holds under a name, if it holds one. -/
def formIn? (system : FileSystem) (name : String) (directory : Path) : Option ModuleForm :=
  let holds (parts : List String) : Bool :=
    (system.isFile { directory with parts := directory.parts ++ parts }).toOption.getD false
  if holds [name, "__init__.py"] then some .package
  else if holds [name ++ ".py"] then some .file
  else none

def find (system : FileSystem) (directories : List Path) (name : String) :
    Except LoadProblem ExtensionModule :=
  let isSimple := !name.toList.contains '.' && !name.toList.contains '/'
  match if isSimple then directories.findSome? (formIn? system name) else none with
  | some form => .ok { form, names := [] }
  | none =>
      if Text.beginsWith name "." then .error (.relativeName name) else ofStandard name

def load (system : FileSystem) (directories : List Path) (specification : String) :
    Except LoadProblem (String × ModuleMember) := do
  let moduleName := Text.before ':' specification
  let memberName := (Text.after? ':' specification).getD ""
  if moduleName.isEmpty || memberName.isEmpty then
    throw (.badSpecification specification)
  match (← find system directories moduleName).member? memberName with
  | some member => return (memberName, member)
  | none => throw (.noMember moduleName memberName)

end ExtensionModule

end Typeloom
