import Typeloom.Schema.Forest

/-!
# The order of references

The references in a document are collected while values wait to be looked at, and the parts of a
value are put in front of those that wait.  What is collected is what is met on a walk through the
document that enters each part where it stands: the reference of an object comes before those in
its values, which follow key by key, and those in an array follow item by item.
-/

namespace Typeloom

namespace Forest

mutual

/-- The references to other documents that are met on a walk through a value. -/
def walk : Json → List String
  | .array items => walkItems items
  | .object members =>
      match Table.get? members "$ref" with
      | some (.text target) =>
          if target.toList.head? = some '#' then walkMembers members
          else target :: walkMembers members
      | _ => walkMembers members
  | _ => []

def walkItems : List Json → List String
  | [] => []
  | item :: rest => walk item ++ walkItems rest

def walkMembers : List (String × Json) → List String
  | [] => []
  | (_, value) :: rest => walk value ++ walkMembers rest

end

theorem walkItems_eq_flatMap (items : List Json) : walkItems items = items.flatMap walk := by
  induction items with
  | nil => rw [walkItems, List.flatMap_nil]
  | cons item rest ih => rw [walkItems, ih, List.flatMap_cons]

theorem walkMembers_eq_flatMap (members : Json.Members) :
    walkMembers members = (Table.values members).flatMap walk := by
  induction members with
  | nil => rw [walkMembers, Table.values, List.map_nil, List.flatMap_nil]
  | cons member rest ih =>
      rw [walkMembers, ih]
      rfl

theorem beginsWith_hash_iff (target : String) :
    Text.beginsWith target "#" = true ↔ target.toList.head? = some '#' := by
  have isHash : "#".toList = ['#'] := rfl
  rw [Text.beginsWith, isHash]
  cases target.toList with
  | nil => simp
  | cons first rest => simp [@eq_comm _ '#']

/-- An object is entered with its own reference, and left through its values. -/
theorem walk_object (members : Json.Members) :
    walk (.object members) = ownReference members ++ (Table.values members).flatMap walk := by
  rw [walk, walkMembers_eq_flatMap, ownReference]
  cases Table.get? members "$ref" with
  | none => rfl
  | some value =>
      cases value with
      | text target =>
          simp only [Option.bind_some, Json.text?, beginsWith_hash_iff]
          split <;> rfl
      | _ => rfl

/-- What is collected from the values that wait is what is met on the walks through them. -/
theorem pendingReferences_eq_flatMap (pending : List Json) :
    pendingReferences pending = pending.flatMap walk := by
  induction pending using pendingReferences.induct with
  | case1 => rw [pendingReferences, List.flatMap_nil]
  | case2 items rest ih =>
      rw [pendingReferences, ih, List.flatMap_append, List.flatMap_cons, walk, walkItems_eq_flatMap]
  | case3 members rest ih =>
      rw [pendingReferences, ih, List.flatMap_append, List.flatMap_cons, walk_object,
        List.append_assoc]
  | case4 value rest notArray notObject ih =>
      rw [List.flatMap_cons]
      cases value with
      | array items => exact absurd rfl (notArray items)
      | object members => exact absurd rfl (notObject members)
      | _ => simpa only [pendingReferences, walk, List.nil_append] using ih

/-- The references in a document are those that are met on the walk through it: the same ones,
each as often, in the same order. -/
theorem externalReferences_eq_walk (document : Json) :
    externalReferences document = walk document := by
  rw [externalReferences, pendingReferences_eq_flatMap, List.flatMap_singleton]

/-- The reference of an object comes first wherever its key stands, and each one as often as it is
met. -/
example : externalReferences (.object [("a", .object [("$ref", .text "x.json")]),
    ("$ref", .text "y.json"), ("b", .array [.object [("$ref", .text "#/a")],
      .object [("$ref", .text "x.json"), ("c", .object [("$ref", .null)])]])]) =
    ["y.json", "x.json", "x.json"] := by
  decide +kernel

/-! ## Parts of a value -/

theorem externalReferences_array (items : List Json) :
    externalReferences (.array items) = pendingReferences items := by
  rw [externalReferences, pendingReferences, List.append_nil]

theorem externalReferences_object (members : Json.Members) :
    externalReferences (.object members) =
      ownReference members ++ pendingReferences (Table.values members) := by
  rw [externalReferences, pendingReferences, List.append_nil]

theorem externalReferences_subset {value : Json} {values : List Json} (occurs : value ∈ values) :
    externalReferences value ⊆ pendingReferences values := by
  rw [externalReferences, pendingReferences_eq_flatMap, pendingReferences_eq_flatMap,
    List.flatMap_singleton]
  exact fun reference isMet => List.mem_flatMap.mpr ⟨value, occurs, isMet⟩

theorem externalReferences_subset_of_get? {members : Json.Members} {key : String} {value : Json}
    (known : Table.get? members key = some value) :
    externalReferences value ⊆ externalReferences (.object members) := by
  rw [externalReferences_object]
  exact fun reference isReference => List.mem_append_right _
    (externalReferences_subset (Table.mem_values_of_get? known) isReference)

end Forest

end Typeloom
