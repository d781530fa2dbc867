import Typeloom.Generate.Outline
import Typeloom.Json.Access
import Typeloom.Number.Quantity
import Typeloom.Text.Sorting

/-!
# Signatures

The signatures of all generated classes and enums in a form that does not depend on the target
language.  Packages and the types in them are sorted by name, so that two outlines can be compared
line by line.
-/

namespace Typeloom

namespace Signature

mutual

def typeText (outline : Outline) : TypeExpr → Except Fault String
  | ⟨.classRef, name, _, _⟩ => .ok (fullName outline name)
  | ⟨.enumRef, name, _, _⟩ => .ok (fullName outline name)
  | ⟨.array, _, [], _⟩ => .ok "any[]"
  | ⟨.array, _, item :: _, _⟩ => do return (← typeText outline item) ++ "[]"
  | ⟨.tuple, _, items, _⟩ => do
      return "(" ++ ", ".intercalate (← typeTexts outline items) ++ ")"
  | ⟨.union, _, variants, _⟩ => do
      return "(" ++ " | ".intercalate (← typeTexts outline variants) ++ ")"
  | ⟨.optional, _, [], _⟩ => .error .missingItem
  | ⟨.optional, _, inner :: _, _⟩ => do return (← typeText outline inner) ++ "?"
  | ⟨.literal, _, _, constant⟩ => .ok ("const " ++ constant.display)
  | ⟨.any, _, _, _⟩ => .ok "any"
  | ⟨.primitive, name, _, _⟩ => .ok name

def typeTexts (outline : Outline) : List TypeExpr → Except Fault (List String)
  | [] => .ok []
  | type :: rest => do
      let text ← typeText outline type
      let texts ← typeTexts outline rest
      return text :: texts

/-- The full name of a class or enum, or its model name if it is unknown. -/
def fullName (outline : Outline) (modelName : String) : String :=
  match outline.resolve? modelName with
  | some entry => entry.fullName
  | none => modelName

end

def line (depth : Nat) (text : String) : String :=
  String.ofList (List.replicate (2 * depth) ' ') ++ text ++ "\n"

def classText (outline : Outline) (entry : TypeOutline) (definition : ClassDefinition) :
    Except Fault String := do
  let base :=
    match definition.base with
    | some base => " extends " ++ fullName outline base
    | none => ""
  let fields ← definition.fields.mapM fun field => do
    return line 2 ((← typeText outline field.type) ++ " " ++ field.name ++ ";")
  return line 1 ("class " ++ entry.name ++ base ++ " \x7b") ++ String.join fields ++ line 1 "\x7d"

def enumText (entry : TypeOutline) (definition : EnumDefinition) : Except Fault String := do
  let members ← definition.members.mapM fun (name, _) => do
    return line 2 (← name.joinableText)
  return line 1 ("enum " ++ entry.name ++ " \x7b") ++ String.join members ++ line 1 "\x7d"

def entryText (outline : Outline) (entry : TypeOutline) : Except Fault String :=
  match entry.target with
  | .ofClass definition => classText outline entry definition
  | .ofEnum definition => enumText entry definition

/-- The signatures of a package in pieces: a line that opens it, its types and a line that closes
it. -/
def packagePieces (outline : Outline) (package : Json) : List (Except Fault String) :=
  let classes := Text.sortedBy TypeOutline.name (outline.classesOf package)
  let enums := Text.sortedBy TypeOutline.name (outline.enumsOf package)
  let name := if package.isTruthy then package.inMessage else "<default>"
  .ok (line 0 ("package " ++ name ++ " \x7b")) ::
    (classes ++ enums).map (entryText outline) ++ [.ok (line 0 "\x7d")]

/-- The quantity that a value stands for, if it is a number. -/
def quantityOf? : Json → Option Quantity
  | .bool value => some (.ofInteger (Json.ofBool value))
  | .integer value => some (.ofInteger value)
  | .number value => some (.ofBinary value)
  | _ => none

/-- Packages in order: by their code points if all are texts, by their values if all are
numbers. -/
def sortedPackages (packages : List Json) : Except Fault (List Json) :=
  match packages with
  | [package] => .ok [package]
  | _ =>
      match packages.mapM Json.text? with
      | some texts => .ok ((Text.sorted texts).map .text)
      | none =>
          match packages.mapM quantityOf? with
          | some _ =>
              .ok (packages.mergeSort fun left right =>
                match quantityOf? left, quantityOf? right with
                | some low, some high => !high.lessThan low
                | _, _ => true)
          | none => .error .wrongType

/-- The signatures of all classes and enums of an outline in the pieces in which they are written,
any of which may turn out not to exist. -/
def pieces (outline : Outline) : List (Except Fault String) :=
  match sortedPackages outline.packages with
  | .ok packages => packages.flatMap (packagePieces outline)
  | .error fault => [.error fault]

/-- The signatures of all classes and enums of an outline. -/
def dump (outline : Outline) : Except Fault String := do
  return String.join (← (pieces outline).mapM id)

end Signature

end Typeloom
