import Typeloom.Json.Equality

/-!
# Types of fields

The type of a field, before it is spelled in a target language.  All kinds of types have one
shape: a name, arguments and a constant, of which each kind uses what it needs.
-/

namespace Typeloom

inductive TypeKind where
  /-- A string, an integer, a number, a boolean or null. -/
  | primitive
  | classRef
  | enumRef
  | array
  | tuple
  | union
  | optional
  | literal
  | any
deriving DecidableEq, Repr, Inhabited

/-- The type of a field. -/
structure TypeExpr where
  kind : TypeKind
  /-- The primitive type, or the model name of the class or enum. -/
  name : String
  /-- The types that the type is made of. -/
  arguments : List TypeExpr
  /-- The value of a literal. -/
  constant : Json
deriving Inhabited, Repr

namespace TypeExpr

def anything : TypeExpr := ⟨.any, "", [], .null⟩

def primitive (name : String) : TypeExpr := ⟨.primitive, name, [], .null⟩

def instanceOf (name : String) : TypeExpr := ⟨.classRef, name, [], .null⟩

def memberOf (name : String) : TypeExpr := ⟨.enumRef, name, [], .null⟩

def listOf (item : TypeExpr) : TypeExpr := ⟨.array, "", [item], .null⟩

def tupleOf (items : List TypeExpr) : TypeExpr := ⟨.tuple, "", items, .null⟩

def unionOf (variants : List TypeExpr) : TypeExpr := ⟨.union, "", variants, .null⟩

/-- The type of one value, with the name of its primitive type. -/
def literal (type : String) (value : Json) : TypeExpr := ⟨.literal, type, [], value⟩

/-- The type that also admits a missing value.  A type that admits it already stays as it is. -/
def optional (inner : TypeExpr) : TypeExpr :=
  match inner.kind with
  | .optional => inner
  | .any => inner
  | _ => ⟨.optional, "", [inner], .null⟩

/-- The type without the outer mark that a value may be missing. -/
def withoutOptional (type : TypeExpr) : TypeExpr :=
  match type.kind, type.arguments with
  | .optional, inner :: _ => inner
  | _, _ => type

def isNull (type : TypeExpr) : Bool :=
  type.kind = .primitive && type.name = "null"

def isNamed (type : TypeExpr) : Bool :=
  type.kind = .classRef || type.kind = .enumRef

mutual

/-- Whether two types are the same, with their constants compared as values. -/
def same : TypeExpr → TypeExpr → Bool
  | ⟨kind, name, arguments, constant⟩, ⟨kind', name', arguments', constant'⟩ =>
      kind == kind' && name == name' && sameAll arguments arguments' &&
        Json.same constant constant'

def sameAll : List TypeExpr → List TypeExpr → Bool
  | [], [] => true
  | left :: lefts, right :: rights => same left right && sameAll lefts rights
  | _, _ => false

end

mutual

/-- The names of the classes and enums in a type, from left to right. -/
def referencedNames : TypeExpr → List String
  | ⟨kind, name, arguments, _⟩ =>
      let own := if kind = .classRef || kind = .enumRef then [name] else []
      own ++ referencedNamesOfAll arguments

def referencedNamesOfAll : List TypeExpr → List String
  | [] => []
  | type :: rest => referencedNames type ++ referencedNamesOfAll rest

end

/-- A list of types without those that are the same as an earlier one. -/
def distinct (types : List TypeExpr) : List TypeExpr :=
  types.foldl (fun kept type => if kept.any (same type) then kept else kept ++ [type]) []

theorem mem_of_mem_distinct {type : TypeExpr} {types : List TypeExpr}
    (occurs : type ∈ distinct types) : type ∈ types := by
  have begins : ∀ kept ∈ ([] : List TypeExpr), kept ∈ types := by simp
  have keeps (kept : List TypeExpr) (within : ∀ old ∈ kept, old ∈ types) (next : TypeExpr)
      (isNext : next ∈ types) :
      ∀ old ∈ (if kept.any (same next) then kept else kept ++ [next]), old ∈ types := by
    split
    · exact within
    · intro old occurs
      rcases List.mem_append.mp occurs with early | late
      · exact within old early
      · rwa [List.mem_singleton.mp late]
  exact List.foldlRecOn types _ begins keeps type occurs

end TypeExpr

end Typeloom
