import Mathlib.Data.List.Nodup
import Typeloom.Proofs.Json.Readable
import Typeloom.Proofs.Schema.Readers
import Typeloom.Proofs.Schema.Reading

/-!
# Properties of derivations

The properties of a derivation are those of its second part, followed by those beside its parts.
What further parts declare is not read, and neither is what a second part declares that is not
simply an object.  So a declared property is there once unless it is declared both in the second
part and beside the parts, or in another part only.
-/

namespace Typeloom

open Reporting

/-- The names of the properties of a body, if there is one. -/
def Body.names (body? : Option (Body Node)) : List String :=
  (body?.elim [] Body.properties).map Property.name

/-- The names of the properties that a node has of its own. -/
def Node.propertyNames : Node → List String
  | .object body => Body.names (some body)
  | .allOf _ _ extension => Body.names extension
  | _ => []

namespace SchemaReader

/-- The names that an object declares as those of its properties. -/
def declaredNames (members : Json.Members) : List String :=
  match Table.get? members "properties" with
  | some (.object declared) => Table.keys declared
  | _ => []

/-- The parts of a derivation that are objects and do not refer to others. -/
def inlineParts (members : Json.Members) : List Json.Members :=
  (itemsAt members "allOf").filterMap fun
    | .object part => if Json.hasMember part "$ref" then none else some part
    | _ => none

/-- The names of the properties of a value that simply describes an object. -/
def plainNames : Json → List String
  | .object members =>
      match formOf members with
      | .typed type => if (singleType type).isText "object" then declaredNames members else []
      | .properties => declaredNames members
      | _ => []
  | _ => []

/-- The names of the properties that the second part of a derivation adds. -/
def addedNames (members : Json.Members) : List String :=
  match itemsAt members "allOf" with
  | _ :: second :: _ => plainNames second
  | _ => []

/-! ## The names that are read -/

section Names

variable {systemId pointer : String} {members : Json.Members}

theorem names_readProperties (required : List Json) (declared : Json.Members) :
    Returns (fun properties => properties.map Property.name = Table.keys declared)
      (readProperties systemId pointer required declared) := by
  induction declared with
  | nil => exact returns_pure rfl
  | cons entry rest ih =>
      obtain ⟨name, value⟩ := entry
      rw [readProperties]
      refine returns_after fun type => returns_bind ih fun properties areNames => returns_pure ?_
      rw [List.map_cons, areNames]
      rfl

theorem names_readDeclared (required : List Json) :
    Returns (fun properties => properties.map Property.name = declaredNames members)
      (readDeclared systemId pointer required members) := by
  induction members with
  | nil => exact returns_pure rfl
  | cons member rest ih =>
      obtain ⟨key, value⟩ := member
      unfold readDeclared
      split
      · rename_i isKey
        rw [isKey, declaredNames, Table.get?_cons_self]
        cases value with
        | object declared => exact names_readProperties required declared
        | _ => exact returns_pure rfl
      · rename_i isOther
        rwa [declaredNames, Table.get?_cons_of_ne isOther]

theorem names_joinBodies (added siblings : Option (Body Node)) :
    Body.names (joinBodies added siblings) = Body.names added ++ Body.names siblings := by
  cases added <;> cases siblings <;> simp [joinBodies, Body.names]

theorem not_isText_of_isText {value : Json} {content other : String} (differs : content ≠ other)
    (isText : value.isText content = true) : ¬value.isText other = true := by
  cases value <;> simp_all [Json.isText]

theorem declaredNames_of_lacks (lacks : Json.hasMember members "properties" = false) :
    declaredNames members = [] := by
  have noValue : Table.get? members "properties" = none := by
    simpa [Json.hasMember, Table.contains] using lacks
  rw [declaredNames, noValue]

/-- The keyword for derivations comes before those for types and properties. -/
theorem get?_allOf_eq_none
    (isBehind : formOf members = .properties ∨ ∃ type, formOf members = .typed type) :
    Table.get? members "allOf" = none := by
  cases found : Table.get? members "allOf" with
  | none => rfl
  | some parts =>
      unfold formOf at isBehind
      cases isRef : Table.get? members "$ref" <;> cases isConst : Table.get? members "const" <;>
        cases isOneOf : Table.get? members "oneOf" <;>
        cases isAnyOf : Table.get? members "anyOf" <;>
        simp [found, isRef, isConst, isOneOf, isAnyOf] at isBehind

/-- What is read from an object: an object with the properties that are declared, a derivation that
has them beside its second part, or something else. -/
inductive Obtained (members : Json.Members) (ofAdded : Option (Body Node) → Prop) :
    Node → Prop where
  | plain {body : Body Node}
      (arePlain : plainNames (.object members) = declaredNames members)
      (notDerived : Table.get? members "allOf" = none)
      (declared : Body.names (some body) = declaredNames members) :
      Obtained members ofAdded (.object body)
  | derived {info : NodeInfo} {base : Option Reference} {added siblings : Option (Body Node)}
      (notPlain : plainNames (.object members) = []) (isAdded : ofAdded added)
      (declared : Body.names siblings = declaredNames members) :
      Obtained members ofAdded (.allOf info base (joinBodies added siblings))
  | other {node : Node} (notPlain : plainNames (.object members) = [])
      (noObject : node.isObject = false) : Obtained members ofAdded node

theorem obtained_readNode {ofAdded : Option (Body Node) → Prop}
    (adds : Returns ofAdded (readAdded systemId (pointer ++ "/allOf/1") members))
    (addsNothing : ∀ parts count, Table.get? members "allOf" = some parts →
      parts.count = .ok count → ¬2 ≤ count → ofAdded none) :
    Returns (Obtained members ofAdded) (readNode systemId pointer (.object members)) := by
  have reads (required : List Json) : Returns
      (fun properties => properties.map Property.name = declaredNames members)
      (readDeclared systemId pointer required members) := names_readDeclared required
  have isGiven := isGiven_formOf members
  rw [readNode]
  refine returns_after fun _ => ?_
  extract_lets info
  split
  case h_3 keyword form =>
    exact returns_after fun _ => returns_pure (.other (by rw [plainNames, form]) rfl)
  case h_4 parts form =>
    rw [form] at isGiven
    have notPlain : plainNames (.object members) = [] := by rw [plainNames, form]
    refine returns_derivation (returns_true _) adds (addsNothing parts · isGiven) reads ?_ ?_
    · intro base added properties _ isAdded areDeclared
      exact .derived notPlain isAdded areDeclared
    · intro base added lacks _ isAdded
      exact .derived notPlain isAdded (declaredNames_of_lacks lacks).symm
  case h_5 values form =>
    refine (returns_readEnumeration values).mono ?_
    rintro node ⟨items, type, names, rfl⟩
    exact .other (by rw [plainNames, form]) rfl
  case h_8 type notEmpty notSeveral form =>
    extract_lets single
    have arePlain : plainNames (.object members) =
        if single.isText "object" then declaredNames members else [] := by
      rw [plainNames, form]
    split
    · rename_i isArray
      rw [if_neg (not_isText_of_isText (by decide) isArray)] at arePlain
      refine (returns_readArray members).mono ?_
      rintro node (⟨item, rfl⟩ | ⟨items, rfl⟩) <;> exact .other arePlain rfl
    · split
      · rename_i isObject
        rw [if_pos (Bool.and_eq_true_iff.mp isObject).1] at arePlain
        have notDerived := get?_allOf_eq_none (Or.inr ⟨type, form⟩)
        exact returns_properties reads fun properties areDeclared =>
          returns_pure (.plain arePlain notDerived areDeclared)
      · rename_i noObject
        refine returns_pure (.other ?_ rfl)
        rw [arePlain]
        split
        · rename_i isObject
          exact declaredNames_of_lacks (by simpa [isObject] using noObject)
        · rfl
  case h_9 form =>
    have arePlain : plainNames (.object members) = declaredNames members := by
      rw [plainNames, form]
    exact returns_properties reads fun properties areDeclared =>
      returns_pure (.plain arePlain (get?_allOf_eq_none (Or.inl form)) areDeclared)
  all_goals
    rename_i form
    exact returns_pure (.other (by simp [plainNames, form, singleType, Json.isText]) rfl)

/-- What is simply an object has the properties that are declared, and nothing else adds any. -/
theorem names_addedBody (place : String) (value : Json) :
    Returns (fun node => Body.names (some (addedBody place node)) = plainNames value)
      (readNode systemId pointer value) := by
  cases value with
  | object members =>
      refine (obtained_readNode (returns_true _) fun _ _ _ _ _ => trivial).mono ?_
      rintro node (⟨arePlain, -, declared⟩ | ⟨notPlain, -, -⟩ | ⟨notPlain, noObject⟩)
      · exact declared.trans arePlain.symm
      · exact notPlain.symm
      · rw [notPlain]
        cases node <;> first | rfl | cases noObject
  | _ =>
      rw [readNode]
      · exact returns_after fun _ => returns_pure rfl
      · simp

theorem names_readAdded :
    Returns (fun body? => Body.names body? = addedNames members)
      (readAdded systemId pointer members) := by
  induction members with
  | nil => exact returns_pure rfl
  | cons member rest ih =>
      obtain ⟨key, value⟩ := member
      unfold readAdded
      split
      · rename_i isKey
        subst isKey
        split
        · rename_i first second others
          have areAdded : addedNames (("allOf", .array (first :: second :: others)) :: rest) =
              plainNames second := by
            rw [addedNames, itemsAt, Table.get?_cons_self]
          rw [areAdded]
          exact returns_bind (names_addedBody pointer second) fun node areNames =>
            returns_pure areNames
        · rename_i notSeveral
          refine returns_after fun _ => returns_pure ?_
          rw [addedNames, itemsAt, Table.get?_cons_self]
          cases value with
          | array items =>
              rcases items with - | ⟨first, - | ⟨second, others⟩⟩
              · rfl
              · rfl
              · exact absurd rfl (notSeveral first second others)
          | _ => rfl
      · rename_i isOther
        rwa [addedNames, itemsAt, Table.get?_cons_of_ne isOther]

/-- The properties of an object are those that its second part adds and those that it declares. -/
theorem names_readNode :
    Returns (fun node => node.isObject = true →
      node.propertyNames = addedNames members ++ declaredNames members)
      (readNode systemId pointer (.object members)) := by
  have addsNothing (parts : Json) (count : Nat) (isAllOf : Table.get? members "allOf" = some parts)
      (isCount : parts.count = .ok count) (isShort : ¬2 ≤ count) : addedNames members = [] := by
    rw [addedNames, itemsAt, isAllOf]
    cases parts with
    | array items =>
        obtain rfl : items.length = count := Except.ok.inj isCount
        rcases items with - | ⟨first, - | ⟨second, others⟩⟩
        · rfl
        · rfl
        · exact absurd (Nat.le_add_left 2 others.length) isShort
    | _ => rfl
  refine (obtained_readNode names_readAdded fun parts count isAllOf isCount isShort =>
    (addsNothing parts count isAllOf isCount isShort).symm).mono ?_
  rintro node (⟨-, notDerived, declared⟩ | ⟨-, isAdded, declared⟩ | ⟨-, noObject⟩) isObject
  · rw [Node.propertyNames, declared, addedNames, itemsAt, notDerived]
    rfl
  · rw [Node.propertyNames, names_joinBodies, isAdded, declared]
  · exact absurd isObject (by simp [noObject])

end Names

/-! ## Declared once -/

theorem nodup_declaredNames {members : Json.Members}
    (distinct : (Json.object members).DistinctKeys) : (declaredNames members).Nodup := by
  unfold declaredNames
  split
  · rename_i declared isDeclared
    cases distinct.get? isDeclared
    assumption
  · exact List.nodup_nil

theorem nodup_plainNames {value : Json} (distinct : value.DistinctKeys) :
    (plainNames value).Nodup := by
  unfold plainNames
  split
  · split
    · split
      · exact nodup_declaredNames distinct
      · exact List.nodup_nil
    · exact nodup_declaredNames distinct
    · exact List.nodup_nil
  · exact List.nodup_nil

theorem nodup_addedNames {members : Json.Members}
    (distinct : (Json.object members).DistinctKeys) : (addedNames members).Nodup := by
  unfold addedNames
  split
  · rename_i first second others areItems
    unfold itemsAt at areItems
    split at areItems
    · rename_i items isAllOf
      subst areItems
      cases distinct.get? isAllOf with
      | array each => exact nodup_plainNames (each second (by simp))
    · cases areItems
  · exact List.nodup_nil

/-- The names that are declared by an object itself and by the parts of it that are no
references. -/
def allNames (members : Json.Members) : List String :=
  declaredNames members ++ (inlineParts members).flatMap declaredNames

/-- An object has the properties that its second part adds and those that it declares.  So all that
is declared by it or its parts is there once just if the second part adds nothing that is declared
beside it, and no other part declares anything else. -/
theorem names_of_object {systemId pointer : String} {members : Json.Members} {node : Node}
    (reads : ReadsAs systemId pointer (.object members) node) (isObject : node.isObject = true)
    (distinct : (Json.object members).DistinctKeys) :
    node.propertyNames = addedNames members ++ declaredNames members ∧
      ((∀ name ∈ allNames members, node.propertyNames.count name = 1) ↔
        (addedNames members).Disjoint (declaredNames members) ∧
          ∀ part ∈ inlineParts members,
            declaredNames part ⊆ addedNames members ++ declaredNames members) := by
  have areNames := reads.holds names_readNode isObject
  refine ⟨areNames, ?_⟩
  rw [areNames]
  constructor
  · intro once
    refine ⟨fun name isAdded isDeclared => ?_, fun part isPart name occurs => ?_⟩
    · have count := once name (List.mem_append_left _ isDeclared)
      rw [List.count_append] at count
      have inAdded := List.count_pos_iff.mpr isAdded
      have inDeclared := List.count_pos_iff.mpr isDeclared
      omega
    · have count := once name
        (List.mem_append_right _ (List.mem_flatMap.mpr ⟨part, isPart, occurs⟩))
      exact List.count_pos_iff.mp (by omega)
  · rintro ⟨disjoint, within⟩ name occurs
    have allDistinct : (addedNames members ++ declaredNames members).Nodup :=
      (nodup_addedNames distinct).append (nodup_declaredNames distinct) disjoint
    refine List.count_eq_one_of_mem allDistinct ?_
    rcases List.mem_append.mp occurs with isDeclared | inPart
    · exact List.mem_append_right _ isDeclared
    · obtain ⟨part, isPart, isDeclared⟩ := List.mem_flatMap.mp inPart
      exact within part isPart isDeclared

/-- Properties that are texts. -/
def textProperties (names : List String) : Json :=
  .object (names.map fun name => (name, .object [("type", .text "string")]))

/-- A derivation with parts that declare properties, and with properties beside them. -/
def derivation (parts : List (List String)) (beside : List String) : Json.Members :=
  [("allOf", .array (.object [("$ref", .text "#/definitions/Base")] ::
      parts.map fun names => .object [("properties", textProperties names)])),
   ("properties", textProperties beside)]

theorem distinctKeys_textProperties {names : List String} (distinct : names.Nodup) :
    (textProperties names).DistinctKeys := by
  refine .object (by simpa [Table.keys, Function.comp_def] using distinct) fun value occurs => ?_
  obtain ⟨entry, isEntry, rfl⟩ := List.mem_map.mp occurs
  obtain ⟨name, -, rfl⟩ := List.mem_map.mp isEntry
  exact .object (List.nodup_singleton _) (List.forall_mem_singleton.mpr (.text "string"))

theorem distinctKeys_derivation {parts : List (List String)} {beside : List String}
    (ofParts : ∀ names ∈ parts, names.Nodup) (ofBeside : beside.Nodup) :
    (Json.object (derivation parts beside)).DistinctKeys := by
  have single {key : String} {value : Json} (distinct : value.DistinctKeys) :
      (Json.object [(key, value)]).DistinctKeys :=
    .object (List.nodup_singleton _) (List.forall_mem_singleton.mpr distinct)
  refine .object (by simp [derivation, Table.keys]) (List.forall_mem_cons.mpr ⟨?_,
    List.forall_mem_singleton.mpr (distinctKeys_textProperties ofBeside)⟩)
  refine .array (List.forall_mem_cons.mpr ⟨single (.text _), fun value occurs => ?_⟩)
  obtain ⟨names, isPart, rfl⟩ := List.mem_map.mp occurs
  exact single (distinctKeys_textProperties (ofParts names isPart))

/-- The properties that are read of them, at their places. -/
def textPropertiesAt (place : String) (names : List String) : List (Property Node) :=
  names.map fun name =>
    let pointer := place ++ "/properties/" ++ name
    { info := { pointer }, name, type := .primitive { pointer } (.text "string"), required := false
      default? := none }

/-- What is read of a derivation at a place. -/
def derived (added beside : List String) : Node :=
  .allOf { pointer := "#/definitions/Order" }
    (some { info := { pointer := "#/definitions/Order/allOf/0" }
            target := .text "#/definitions/Base" })
    (some { info := { pointer := "#/definitions/Order/allOf/1" }
            properties := textPropertiesAt "#/definitions/Order/allOf/1" added ++
              textPropertiesAt "#/definitions/Order" beside })

theorem names_of_object_apart :
    ReadsAs "file:///work/doc.json" "#/definitions/Order" (.object (derivation [["a"]] ["b"]))
        (derived ["a"] ["b"]) ∧
      (derived ["a"] ["b"]).isObject = true ∧
      (Json.object (derivation [["a"]] ["b"])).DistinctKeys ∧
      ∀ name ∈ ["b", "a"], (derived ["a"] ["b"]).propertyNames.count name = 1 := by
  have reads : ReadsAs "file:///work/doc.json" "#/definitions/Order"
      (.object (derivation [["a"]] ["b"])) (derived ["a"] ["b"]) := ⟨{}, {}, by rfl⟩
  have distinct : (Json.object (derivation [["a"]] ["b"])).DistinctKeys :=
    distinctKeys_derivation (by simp) (by simp)
  refine ⟨reads, rfl, distinct, ?_⟩
  have areNames : allNames (derivation [["a"]] ["b"]) = ["b", "a"] := by decide
  have adds : addedNames (derivation [["a"]] ["b"]) = ["a"] := by decide
  have declares : declaredNames (derivation [["a"]] ["b"]) = ["b"] := by decide
  rw [← areNames]
  refine (names_of_object reads rfl distinct).2.mpr ⟨?_, by decide⟩
  rw [adds, declares]
  simp

/-- A property that is declared in the second part and beside the parts is there twice, and one that
is declared in the third part is not there, although nothing is reported. -/
theorem names_of_object_overlapping :
    onChannel (readNode "file:///work/doc.json" "#/definitions/Order"
        (.object (derivation [["a"], ["b"]] ["a"]))) {} = (.ok (derived ["a"] ["a"]), {}) ∧
      (derived ["a"] ["a"]).isObject = true ∧
      allNames (derivation [["a"], ["b"]] ["a"]) = ["a", "a", "b"] ∧
      (derived ["a"] ["a"]).propertyNames.count "a" = 2 ∧
      (derived ["a"] ["a"]).propertyNames.count "b" = 0 :=
  ⟨by rfl, rfl, by decide, by decide, by decide⟩

end SchemaReader

end Typeloom
