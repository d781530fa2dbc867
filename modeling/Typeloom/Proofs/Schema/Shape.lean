import Typeloom.Proofs.Schema.ReferenceOrder
import Typeloom.Schema.Reader

/-!
# The shape of schema documents

A document is well-shaped if the keywords at every place that is visited when its nodes are read
have values of the shape that is asked of them.  Nothing is asked of what is not visited.
-/

namespace Typeloom

namespace Json

def IsText (value : Json) : Prop :=
  ∃ content, value = .text content

/-- Whether a value is an array of texts. -/
def AreTexts (value : Json) : Prop :=
  ∃ items, value = .array items ∧ ∀ item ∈ items, item.IsText

/-- Whether a value is an object with texts under all its keys. -/
def HasTexts (value : Json) : Prop :=
  ∃ members, value = .object members ∧ ∀ member ∈ members, member.2.IsText

end Json

namespace SchemaReader

/-- Whether the keywords of a node have values of the shape that is asked of them.  Of the first
part of a derivation only the reference to the base is read. -/
structure Shape (members : Json.Members) : Prop where
  reference : ∀ target ∈ Table.get? members "$ref", target.IsText
  alternatives : ∀ keyword ∈ ["oneOf", "anyOf", "allOf"], ∀ value ∈ Table.get? members keyword,
    ∃ items, value = .array items
  base : ∀ first rest, Table.get? members "allOf" = some (.array (.object first :: rest)) →
    ∀ target ∈ Table.get? first "$ref", target.IsText
  properties : ∀ value ∈ Table.get? members "properties", ∃ declared, value = .object declared
  required : ∀ value ∈ Table.get? members "required", value.AreTexts
  type : ∀ value ∈ Table.get? members "type", value.IsText ∨ value.AreTexts
  memberNames : ∀ value ∈ Table.get? members "x-enum-members", value.HasTexts
  description : ∀ value ∈ Table.get? members "description", value.IsText

/-- The items under a key. -/
def itemsAt (members : Json.Members) (key : String) : List Json :=
  match Table.get? members key with
  | some (.array items) => items
  | _ => []

/-- The values under the keys of the object under a key. -/
def valuesAt (members : Json.Members) (key : String) : List Json :=
  match Table.get? members key with
  | some (.object inner) => Table.values inner
  | _ => []

/-- What describes the items of an array. -/
def itemNodes (members : Json.Members) : List Json :=
  match Table.get? members "items" with
  | some (.array items) => items
  | some item => [item]
  | none => []

/-- The values that are read as nodes when a node is read. -/
def parts (members : Json.Members) : List Json :=
  match formOf members with
  | .union keyword => itemsAt members keyword.label
  | .derivation _ => ((itemsAt members "allOf").drop 1).take 1 ++ valuesAt members "properties"
  | .typed type =>
      if (singleType type).isText "array" then itemNodes members
      else if (singleType type).isText "object" then valuesAt members "properties"
      else []
  | .properties => valuesAt members "properties"
  | _ => []

/-- The values that are read as nodes when a value is read, at any depth. -/
inductive Visited : Json → Json → Prop where
  | self (value : Json) : Visited value value
  | part {members : Json.Members} {part value : Json} :
      part ∈ parts members → Visited part value → Visited (.object members) value

/-- Whether all that is visited when a value is read has the shape that is asked of it. -/
def ShapeValid (value : Json) : Prop :=
  ∀ members, Visited value (.object members) → Shape members

theorem shapeValid_object_iff {members : Json.Members} :
    ShapeValid (.object members) ↔ Shape members ∧ ∀ part ∈ parts members, ShapeValid part := by
  constructor
  · intro valid
    exact ⟨valid members (.self _), fun part isPart _ visited => valid _ (.part isPart visited)⟩
  · rintro ⟨shape, ofParts⟩ other visited
    cases visited with
    | self => exact shape
    | part isPart visited => exact ofParts _ isPart _ visited

/-- The values that are read as nodes when a document is read: its definitions, unless they are
remarks, and the document itself if it describes an object. -/
def documentParts (members : Json.Members) : List Json :=
  (match Table.get? members (definitionsKeyword members) with
    | some (.object entries) =>
        (entries.filter fun entry => !isRemark entry.1 entry.2).map Prod.snd
    | _ => []) ++
    if Json.hasMember members "properties" || Json.hasMember members "allOf" then [.object members]
    else []

/-- Whether a document has the shape that is asked of it. -/
structure DocumentShape (members : Json.Members) : Prop where
  definitions : ∀ keyword ∈ ["definitions", "$defs"], ∀ value ∈ Table.get? members keyword,
    ∃ entries, value = .object entries
  package : ∀ value ∈ Table.get? members "x-package", value.IsText
  parts : ∀ part ∈ documentParts members, ShapeValid part

end SchemaReader

/-! ## References of parts -/

namespace Forest

theorem externalReferences_subset_of_itemsAt {members : Json.Members} {key : String} {item : Json}
    (occurs : item ∈ SchemaReader.itemsAt members key) :
    externalReferences item ⊆ externalReferences (.object members) := by
  unfold SchemaReader.itemsAt at occurs
  split at occurs
  · rename_i items known
    refine List.Subset.trans ?_ (externalReferences_subset_of_get? known)
    rw [externalReferences_array]
    exact externalReferences_subset occurs
  · cases occurs

theorem externalReferences_subset_of_valuesAt {members : Json.Members} {key : String}
    {value : Json} (occurs : value ∈ SchemaReader.valuesAt members key) :
    externalReferences value ⊆ externalReferences (.object members) := by
  unfold SchemaReader.valuesAt at occurs
  split at occurs
  · rename_i inner known
    refine List.Subset.trans ?_ (externalReferences_subset_of_get? known)
    rw [externalReferences_object]
    exact fun reference isReference =>
      List.mem_append_right _ (externalReferences_subset occurs isReference)
  · cases occurs

theorem externalReferences_subset_of_itemNodes {members : Json.Members} {item : Json}
    (occurs : item ∈ SchemaReader.itemNodes members) :
    externalReferences item ⊆ externalReferences (.object members) := by
  unfold SchemaReader.itemNodes at occurs
  split at occurs
  · rename_i items known
    refine List.Subset.trans ?_ (externalReferences_subset_of_get? known)
    rw [externalReferences_array]
    exact externalReferences_subset occurs
  · rename_i value _ known
    obtain rfl := List.mem_singleton.mp occurs
    exact externalReferences_subset_of_get? known
  · cases occurs

/-- The references in a part of a node are references of the node. -/
theorem externalReferences_subset_of_parts {members : Json.Members} {part : Json}
    (isPart : part ∈ SchemaReader.parts members) :
    externalReferences part ⊆ externalReferences (.object members) := by
  unfold SchemaReader.parts at isPart
  split at isPart
  · exact externalReferences_subset_of_itemsAt isPart
  · rcases List.mem_append.mp isPart with added | declared
    · exact externalReferences_subset_of_itemsAt
        (List.mem_of_mem_drop (List.mem_of_mem_take added))
    · exact externalReferences_subset_of_valuesAt declared
  · split at isPart
    · exact externalReferences_subset_of_itemNodes isPart
    · split at isPart
      · exact externalReferences_subset_of_valuesAt isPart
      · cases isPart
  · exact externalReferences_subset_of_valuesAt isPart
  · cases isPart

end Forest

end Typeloom
