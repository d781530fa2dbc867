import Typeloom.Proofs.Schema.DocumentParts
import Typeloom.Proofs.Schema.Loaded
import Typeloom.Proofs.Schema.Reading

/-!
# Locations are pointers

Every node of a document carries the pointer to the value from which it is read, and every problem
is reported at such a pointer.
-/

namespace Typeloom

open Reporting

namespace Json

/-- Whether the alternatives, and the parts of derivations, are lists wherever they are given. -/
def HasLists (root : Json) : Prop :=
  ∀ members ∈ root.objects, ∀ keyword ∈ ["oneOf", "anyOf", "allOf"],
    ∀ value ∈ Table.get? members keyword, ∃ items, value = .array items

end Json

namespace SchemaReader

section Node

variable {systemId : String} {root : Json} {position : Json.Position} {members : Json.Members}

/-- Whether a node shows the value from which it is read, and everything within it is located. -/
def IsFilled (systemId : String) (root value : Json) (whole : Transcript) (node : Node) : Prop :=
  (DocumentPart.ofNode node).Shows systemId whole value ∧
    AreLocated systemId root whole (DocumentPart.ofNode node).children

/-- Whether a node is read from the value at a position and located with everything within it. -/
structure IsLocatedNode (systemId : String) (root : Json) (position : Json.Position) (value : Json)
    (whole : Transcript) (node : Node) : Prop where
  located : AreLocated systemId root whole [.ofNode node]
  reads : Reads systemId position.pointer value whole node
  pointer_eq : node.pointer = position.pointer

/-- A node that shows the value from which it is read is located if everything within it is. -/
theorem places_node {value : Json} (isAt : root.at? position = some value)
    (places : Places root (IsFilled systemId root value)
      (readNode systemId position.pointer value)) :
    Places root (IsLocatedNode systemId root position value)
      (readNode systemId position.pointer value) := by
  apply (places.remember.with_returns (returns_pointer systemId position.pointer value)).mono
  rintro whole node ⟨⟨⟨shows, ofChildren⟩, reads⟩, isPlace⟩
  refine ⟨areLocated_singleton.mpr ⟨⟨position, value, isAt, isPlace, ?_, shows⟩, ofChildren⟩, reads,
    isPlace⟩
  change Reads systemId node.pointer value whole node
  rw [isPlace]
  exact reads

theorem places_warnUnsupported {value : Json} (isAt : root.at? position = some value)
    (members : Json.Members) :
    Places root (fun _ _ => True) (warnUnsupported systemId position.pointer members) :=
  places_forM fun _ _ => places_reportAt isAt fun _ _ => trivial

theorem places_warnUndeclared {value : Json} (isAt : root.at? position = some value)
    (required : List Json) (declared : Json.Members) :
    Places root (fun _ _ => True)
      (warnUndeclared systemId position.pointer required declared) := by
  apply places_forM
  intro name _
  dsimp only
  split
  · exact places_pure fun _ => trivial
  · exact places_reportAt isAt fun _ _ => trivial

/-- Whether a constant or an enumeration that decides the kind of a node is there. -/
def Form.IsShown (members : Json.Members) : Form → Prop
  | .const value => Table.get? members "const" = some value
  | .enumeration values => Table.get? members "enum" = some values
  | _ => True

theorem isShown_formOf (members : Json.Members) : (formOf members).IsShown members := by
  apply holds_formOf
  case const => exact fun _ => id
  case enumeration => exact fun _ => id
  all_goals simp [Form.IsShown]

theorem places_readEnumeration {values : Json}
    (isAt : root.at? position = some (.object members))
    (areValues : Table.get? members "enum" = some values) (metadata : Json.Members) :
    Places root (IsFilled systemId root (.object members))
      (readEnumeration systemId { pointer := position.pointer, metadata } members values) := by
  unfold readEnumeration
  extract_lets finish
  have reports : Places root (fun whole _ => .notify (enumReport systemId position.pointer) ∈ whole)
      (reportAt systemId .error "enum must be a non-empty array" position.pointer) :=
    places_reportAt isAt fun _ isReported => isReported
  split
  · exact places_pure fun whole => ⟨Or.inl areValues, areLocated_nil⟩
  · apply places_bind reports
    intro _
    apply places_pure
    intro whole isReported
    exact ⟨Or.inr isReported, areLocated_nil⟩

/-- The properties of a node are read before what comes next. -/
theorem places_properties {α : Type} {post : Transcript → α → Prop}
    {next : List (Property Node) → Reporting α} (isAt : root.at? position = some (.object members))
    (reads : ∀ required, Places root
      (fun whole properties => AreLocated systemId root whole (properties.map .ofProperty))
      (readDeclared systemId position.pointer required members))
    (placesNext : ∀ required properties, Places root (fun whole result =>
      AreLocated systemId root whole (properties.map .ofProperty) →
      (∃ own ⊆ whole, Ends (readDeclared systemId position.pointer required members) own
        (.ok properties)) → post whole result) (next properties)) :
    Places root post (do
      let required ← ofExcept (requiredOf members)
      let declared ← ofExcept (declaredOf members)
      let properties ← readDeclared systemId position.pointer required members
      warnUndeclared systemId position.pointer required declared
      next properties) := by
  apply places_after (places_ofExcept fun _ _ _ => trivial)
  intro required
  apply places_after (places_ofExcept fun _ _ _ => trivial)
  intro declared
  apply places_bind (reads required).remember
  intro properties
  apply places_after (places_warnUndeclared isAt required declared)
  intro _
  apply (placesNext required properties).mono
  rintro whole result holds ⟨areLocated, ends⟩
  exact holds areLocated ends

theorem places_object (isAt : root.at? position = some (.object members))
    (reads : ∀ required, Places root
      (fun whole properties => AreLocated systemId root whole (properties.map .ofProperty))
      (readDeclared systemId position.pointer required members)) (info : NodeInfo) :
    Places root (IsFilled systemId root (.object members)) (do
      let required ← ofExcept (requiredOf members)
      let declared ← ofExcept (declaredOf members)
      let properties ← readDeclared systemId position.pointer required members
      warnUndeclared systemId position.pointer required declared
      return .object { info, properties }) := by
  apply places_properties isAt reads
  intro required properties
  exact places_pure fun _ located _ => ⟨trivial, located⟩

theorem pointer_concat_concat (position : Json.Position) (keyword : String) (step : Json.Step) :
    Json.Position.pointer (position ++ [.key keyword] ++ [step]) =
      position.pointer ++ ("/" ++ keyword ++ "/") ++ step.text := by
  simp only [Json.Position.pointer_concat, Json.Step.text, String.append_assoc]

theorem pointer_allOf (position : Json.Position) (place : Nat) :
    Json.Position.pointer (position ++ [.key "allOf"] ++ [.item place]) =
      position.pointer ++ ("/allOf/" ++ toString place) :=
  (pointer_concat_concat position "allOf" (.item place)).trans (String.append_assoc)

theorem pointer_property (position : Json.Position) (name : String) :
    Json.Position.pointer (position ++ [.key "properties"] ++ [.key name]) =
      position.pointer ++ "/properties/" ++ name :=
  pointer_concat_concat position "properties" (.key name)

/-- The base of a derivation is the first one of its parts. -/
theorem places_readBase {items : List Json} (isAt : root.at? position = some (.object members))
    (isAllOf : Table.get? members "allOf" = some (.array items)) :
    Places root (fun whole base => AreLocated systemId root whole (base.toList.map .ofBase))
      (readBase systemId position.pointer (.array items)) := by
  have noBase : Places root
      (fun whole base => AreLocated systemId root whole (base.toList.map .ofBase))
      (pure none : Reporting (Option Reference)) :=
    places_pure fun _ => areLocated_nil
  unfold readBase
  extract_lets place finish
  change Places _ _ (finish items.head?)
  cases items with
  | nil => exact noBase
  | cons first rest =>
      have isAtList : root.at? (position ++ [.key "allOf"]) = some (.array (first :: rest)) :=
        Json.at?_concat_of_part? isAt isAllOf
      have isAtFirst : root.at? (position ++ [.key "allOf"] ++ [.item 0]) = some first :=
        Json.at?_concat_of_part? isAtList rfl
      have isPlace : place = Json.Position.pointer (position ++ [.key "allOf"] ++ [.item 0]) :=
        (pointer_allOf position 0).symm
      have misplaced : Places root
          (fun whole base => AreLocated systemId root whole (base.toList.map .ofBase))
          (readBase.misplaced systemId place) := by
        rw [isPlace]
        exact places_after (places_reportAt isAtFirst fun _ _ => trivial) fun _ => noBase
      cases first with
      | object inner =>
          dsimp only [List.head?_cons, finish]
          split
          · rename_i target isTarget
            apply places_pure
            intro whole
            apply areLocated_singleton.mpr
            exact ⟨⟨_, _, isAtFirst, isPlace, isTarget, isTarget⟩, areLocated_nil⟩
          · exact misplaced
      | _ => exact misplaced

/-! ## What a derivation adds -/

section Extension

variable {whole : Transcript} {second : Json} {node : Node}

/-- What is read from the second part of a derivation is located, also with further properties
behind that are located elsewhere. -/
theorem areLocated_added (isNode : IsLocatedNode systemId root position second whole node)
    (isAt : root.at? position = some second) {more : List (Property Node)}
    (ofMore : AreLocated systemId root whole (more.map .ofProperty)) :
    AreLocated systemId root whole [.ofExtension
      { addedBody position.pointer node with
        properties := (addedBody position.pointer node).properties ++ more }] := by
  have isPlace : (addedBody position.pointer node).info.pointer = position.pointer := by
    cases node with
    | object body => exact isNode.pointer_eq
    | _ => rfl
  have ofAdded : AreLocated systemId root whole
      ((addedBody position.pointer node).properties.map .ofProperty) := by
    cases node with
    | object body => exact (areLocated_singleton.mp isNode.located).2
    | _ => exact areLocated_nil
  apply areLocated_singleton.mpr
  constructor
  · refine ⟨position, second, isAt, isPlace, Or.inl ⟨node, ?_, ?_, ?_⟩, trivial⟩
    · rw [isPlace]
      exact isNode.reads
    · rw [isPlace]
    · rw [isPlace]
      exact List.prefix_append _ _
  · change AreLocated systemId root whole (List.map _ (_ ++ more))
    rw [List.map_append]
    exact areLocated_append.mpr ⟨ofAdded, ofMore⟩

/-- Whether a body is what the value at a position adds to a derivation. -/
def IsAdded (systemId : String) (root : Json) (place : Json.Position) (whole : Transcript)
    (body : Body Node) : Prop :=
  ∃ second node, root.at? place = some second ∧ body = addedBody place.pointer node ∧
    IsLocatedNode systemId root place second whole node

/-- Whether a body has the properties beside the parts of a derivation. -/
structure AreSiblings (systemId : String) (root : Json) (position : Json.Position)
    (members : Json.Members) (whole : Transcript) (body : Body Node) : Prop where
  info_eq : body.info = { pointer := position.pointer }
  located : AreLocated systemId root whole (body.properties.map .ofProperty)
  reads : ∃ required, ∃ own ⊆ whole,
    Ends (readDeclared systemId position.pointer required members) own (.ok body.properties)

/-- What a derivation adds is located if it is read from the second part or beside the parts. -/
theorem areLocated_joinBodies {place : Json.Position} {added siblings : Option (Body Node)}
    (isAt : root.at? position = some (.object members))
    (ofAdded : ∀ body ∈ added, IsAdded systemId root place whole body)
    (ofSiblings : ∀ body ∈ siblings, AreSiblings systemId root position members whole body) :
    AreLocated systemId root whole ((joinBodies added siblings).toList.map .ofExtension) := by
  cases added with
  | none =>
      cases siblings with
      | none => exact areLocated_nil
      | some body =>
          obtain ⟨info_eq, located, required, own, isWithin, ends⟩ := ofSiblings body rfl
          have isPlace : body.info.pointer = position.pointer := congrArg NodeInfo.pointer info_eq
          apply areLocated_singleton.mpr
          refine ⟨⟨position, _, isAt, isPlace, Or.inr ?_, trivial⟩, located⟩
          refine ⟨members, required, rfl, own, isWithin, ?_⟩
          rw [isPlace]
          exact ends
  | some first =>
      obtain ⟨second, node, isAtSecond, rfl, isNode⟩ := ofAdded first rfl
      cases siblings with
      | none =>
          have noMore : AreLocated systemId root whole ([].map .ofProperty) := areLocated_nil
          have located := areLocated_added isNode isAtSecond noMore
          simpa [joinBodies] using located
      | some body => exact areLocated_added isNode isAtSecond (ofSiblings body rfl).located

end Extension

/-- A derivation is read with its base, its second part and the properties beside the parts. -/
theorem places_derivation {items : List Json} (isAt : root.at? position = some (.object members))
    (isAllOf : Table.get? members "allOf" = some (.array items))
    (reads : ∀ required, Places root
      (fun whole properties => AreLocated systemId root whole (properties.map .ofProperty))
      (readDeclared systemId position.pointer required members))
    (adds : 2 ≤ items.length → Places root
      (fun whole added => ∀ body ∈ added,
        IsAdded systemId root (position ++ [.key "allOf"] ++ [.item 1]) whole body)
      (readAdded systemId (position.pointer ++ "/allOf/1") members)) (info : NodeInfo) :
    Places root (IsFilled systemId root (.object members)) (do
      let base ← readBase systemId position.pointer (.array items)
      let count ← ofExcept (Json.array items).count
      let added ←
        if 2 ≤ count then readAdded systemId (position.pointer ++ "/allOf/1") members
        else pure none
      let siblings ←
        if Json.hasMember members "properties" then do
          let required ← ofExcept (requiredOf members)
          let declared ← ofExcept (declaredOf members)
          let properties ← readDeclared systemId position.pointer required members
          warnUndeclared systemId position.pointer required declared
          pure (some { info := { pointer := position.pointer }, properties })
        else pure none
      return .allOf info base (joinBodies added siblings)) := by
  apply places_bind (places_readBase isAt isAllOf)
  intro base
  have isCount : ofExcept (Json.array items).count = pure items.length := rfl
  rw [isCount, pure_bind]
  extract_lets addSiblings
  have addsSiblings (added : Option (Body Node)) : Places root (fun whole node =>
      (∀ body ∈ added,
        IsAdded systemId root (position ++ [.key "allOf"] ++ [.item 1]) whole body) →
      AreLocated systemId root whole (base.toList.map .ofBase) →
        IsFilled systemId root (.object members) whole node) (addSiblings added) := by
    dsimp only [addSiblings]
    split
    · apply places_properties isAt reads
      intro required properties
      apply places_pure
      rintro whole located ⟨own, isWithin, ends⟩ ofAdded ofBase
      refine ⟨trivial, areLocated_append.mpr ⟨ofBase, areLocated_joinBodies isAt ofAdded ?_⟩⟩
      rintro _ ⟨⟩
      exact ⟨rfl, located, required, own, isWithin, ends⟩
    · apply places_pure
      intro whole ofAdded ofBase
      refine ⟨trivial, areLocated_append.mpr ⟨ofBase, areLocated_joinBodies isAt ofAdded ?_⟩⟩
      simp
  split
  · rename_i several
    exact places_bind (adds several) addsSiblings
  · apply (addsSiblings none).mono
    intro whole node holds
    exact holds (by simp)

theorem areLocated_children_union {whole : Transcript} {info : NodeInfo} (keyword : UnionKeyword)
    {variants : List Node} (located : AreLocated systemId root whole (variants.map .ofNode)) :
    AreLocated systemId root whole
      (DocumentPart.ofNode (.union info keyword variants)).children := by
  cases keyword with
  | typeArray => exact areLocated_nil
  | _ => exact located

/-- An object is read as a located node if what is read under its keywords is located. -/
theorem places_readNode_object (isAt : root.at? position = some (.object members))
    (lists : root.HasLists)
    (ofVariants : ∀ keyword : UnionKeyword, keyword.label ∈ ["oneOf", "anyOf", "allOf"] →
      Places root (fun whole nodes => AreLocated systemId root whole (nodes.map .ofNode))
        (readVariants systemId (position.pointer ++ "/" ++ keyword.label) keyword.label members))
    (declares : ∀ required, Places root
      (fun whole properties => AreLocated systemId root whole (properties.map .ofProperty))
      (readDeclared systemId position.pointer required members))
    (adds : ∀ items, Table.get? members "allOf" = some (.array items) → 2 ≤ items.length →
      Places root (fun whole added => ∀ body ∈ added,
        IsAdded systemId root (position ++ [.key "allOf"] ++ [.item 1]) whole body)
        (readAdded systemId (position.pointer ++ "/allOf/1") members))
    (ofArray : Places root
      (fun whole node => AreLocated systemId root whole (DocumentPart.ofNode node).children)
      (readArray systemId position.pointer
        { pointer := position.pointer, metadata := metadataOf members }
        (Json.memberOrNull members "minItems") members)) :
    Places root (IsLocatedNode systemId root position (.object members))
      (readNode systemId position.pointer (.object members)) := by
  have isGiven := isGiven_formOf members
  have isShown := isShown_formOf members
  apply places_node isAt
  rw [readNode]
  apply places_after (places_warnUnsupported isAt members)
  intro _
  extract_lets info
  split
  case h_1 target form =>
    rw [form] at isGiven
    exact places_pure fun _ => ⟨isGiven, areLocated_nil⟩
  case h_2 value form =>
    rw [form] at isShown
    exact places_pure fun _ => ⟨isShown, areLocated_nil⟩
  case h_3 keyword form =>
    rw [form] at isGiven
    apply places_bind (ofVariants keyword isGiven)
    intro nodes
    apply places_pure
    intro whole ofNodes
    exact ⟨trivial, areLocated_children_union keyword ofNodes⟩
  case h_4 value form =>
    rw [form] at isGiven
    obtain ⟨items, rfl⟩ :=
      lists members (Json.mem_objects_of_at? isAt) "allOf" (by simp) value isGiven
    exact places_derivation isAt isGiven declares (adds items isGiven) info
  case h_5 values form =>
    rw [form] at isShown
    exact places_readEnumeration isAt isShown _
  case h_6 form => exact places_pure fun _ => ⟨trivial, areLocated_nil⟩
  case h_7 first second rest form => exact places_pure fun _ => ⟨trivial, areLocated_nil⟩
  case h_8 type notEmpty notSeveral form =>
    extract_lets single
    split
    · apply (ofArray.with_returns (returns_readArray members)).mono
      rintro whole node ⟨located, ⟨item, rfl⟩ | ⟨items, rfl⟩⟩ <;> exact ⟨trivial, located⟩
    · split
      · exact places_object isAt declares _
      · exact places_pure fun _ => ⟨trivial, areLocated_nil⟩
  case h_9 form => exact places_object isAt declares _
  case h_10 form => exact places_pure fun _ => ⟨trivial, areLocated_nil⟩

end Node

/-! ## Reading -/

/-- Whatever is read from a value at a position is located, and all problems are reported at
positions. -/
theorem places (systemId : String) {root : Json} (distinct : root.DistinctKeys)
    (lists : root.HasLists) :
    (∀ pointer value, ∀ position : Json.Position, pointer = position.pointer →
      root.at? position = some value →
      Places root (IsLocatedNode systemId root position value)
        (readNode systemId pointer value)) ∧
    (∀ pointer info minItems members, ∀ position : Json.Position, pointer = position.pointer →
      (∀ value, Table.get? members "items" = some value →
        root.at? (position ++ [.key "items"]) = some value) →
      Places root (fun whole node =>
        AreLocated systemId root whole (DocumentPart.ofNode node).children)
        (readArray systemId pointer info minItems members)) ∧
    (∀ pointer index items, ∀ position : Json.Position, pointer = position.pointer →
      (∀ place item, items[place]? = some item →
        root.at? (position ++ [.item (index + place)]) = some item) →
      Places root (fun whole nodes => AreLocated systemId root whole (nodes.map .ofNode))
        (readNodes systemId pointer index items)) ∧
    (∀ pointer members, ∀ place : Json.Position, pointer = place.pointer →
      (∃ first second rest, Table.get? members "allOf" = some (.array (first :: second :: rest)) ∧
        root.at? place = some second) →
      Places root (fun whole added => ∀ body ∈ added, IsAdded systemId root place whole body)
        (readAdded systemId pointer members)) ∧
    (∀ pointer required members, ∀ position : Json.Position, pointer = position.pointer →
      (∀ value, Table.get? members "properties" = some value →
        root.at? (position ++ [.key "properties"]) = some value) →
      Places root
        (fun whole properties => AreLocated systemId root whole (properties.map .ofProperty))
        (readDeclared systemId pointer required members)) ∧
    (∀ pointer required members, ∀ position : Json.Position, pointer = position.pointer →
      (∀ entry ∈ members,
        root.at? (position ++ [.key "properties"] ++ [.key entry.1]) = some entry.2) →
      Places root
        (fun whole properties => AreLocated systemId root whole (properties.map .ofProperty))
        (readProperties systemId pointer required members)) ∧
    ∀ pointer keyword members, ∀ position : Json.Position, pointer = position.pointer →
      (∀ value, Table.get? members keyword = some value → root.at? position = some value ∧
        ∃ items, value = .array items) →
      Places root (fun whole nodes => AreLocated systemId root whole (nodes.map .ofNode))
        (readVariants systemId pointer keyword members) := by
  refine readNode.mutual_induct _ _ _ _ _ _ _ ?node ?noNode ?noItem ?nextItem ?noArray ?tuple
    ?untyped ?array ?otherKey ?noAllOf ?added ?nothingAdded ?otherAllOf ?noDeclared ?declared
    ?notDeclared ?otherDeclared ?noProperty ?nextProperty ?noVariants ?variants ?notVariants
    ?otherVariants
  case node =>
    rintro pointer members ofVariants ofDeclared ofAdded ofArray position rfl isAt
    have under {key : String} {value : Json} (isValue : Table.get? members key = some value) :
        root.at? (position ++ [.key key]) = some value :=
      Json.at?_concat_of_part? isAt isValue
    refine places_readNode_object isAt lists ?alternatives
      (fun required => ofDeclared required position rfl fun _ => under) ?adds
      (ofArray position rfl fun _ => under)
    case alternatives =>
      intro keyword isKeyword
      have isPlace := (Json.Position.pointer_concat position (.key keyword.label)).symm
      apply ofVariants keyword _ isPlace
      intro value isValue
      exact ⟨under isValue, lists members (Json.mem_objects_of_at? isAt) _ isKeyword value isValue⟩
    case adds =>
      intro items isAllOf several
      obtain ⟨first, others, rfl⟩ :=
        List.exists_cons_of_length_pos (Nat.lt_of_lt_of_le Nat.zero_lt_two several)
      obtain ⟨second, rest, rfl⟩ :=
        List.exists_cons_of_length_pos (Nat.lt_of_succ_lt_succ several)
      have isAtSecond : root.at? (position ++ [.key "allOf"] ++ [.item 1]) = some second :=
        Json.at?_concat_of_part? (under isAllOf) rfl
      exact ofAdded _ (pointer_allOf position 1).symm ⟨first, second, rest, isAllOf, isAtSecond⟩
  case noNode =>
    rintro value pointer noObject position rfl isAt
    apply places_node isAt
    rw [readNode]
    · apply places_after (places_reportAt isAt fun _ _ => trivial)
      intro _
      exact places_pure fun _ => ⟨trivial, areLocated_nil⟩
    · exact noObject
  case noItem =>
    rintro pointer index position rfl isAt
    rw [readNodes]
    exact places_pure fun _ => areLocated_nil
  case nextItem =>
    rintro pointer index item rest ofItem ofRest position rfl areAt
    rw [readNodes]
    have isAt : root.at? (position ++ [.item index]) = some item := areAt 0 item rfl
    apply places_bind (ofItem _ (Json.Position.pointer_concat position (.item index)).symm isAt)
    intro node
    have areAtRest : ∀ place other, rest[place]? = some other →
        root.at? (position ++ [.item (index + 1 + place)]) = some other := by
      intro place other isOther
      rw [Nat.add_assoc, Nat.add_comm 1]
      exact areAt (place + 1) other isOther
    apply places_bind (ofRest position rfl areAtRest)
    intro nodes
    apply places_pure
    intro whole ofNodes isNode
    exact areLocated_append.mpr ⟨isNode.located, ofNodes⟩
  case noArray =>
    rintro pointer info minItems position rfl areAt
    rw [readArray]
    exact places_pure fun _ => areLocated_nil
  case tuple =>
    rintro pointer info minItems rest items ofItems position rfl areAt
    rw [readArray, if_pos rfl]
    have isAt := areAt (.array items) Table.get?_cons_self
    have isPlace : position.pointer ++ "/items" =
        Json.Position.pointer (position ++ [.key "items"]) := by
      rw [Json.Position.pointer_concat, String.append_assoc]
      rfl
    have areAtItems (place : Nat) (item : Json) (isItem : items[place]? = some item) :
        root.at? (position ++ [.key "items"] ++ [.item (0 + place)]) = some item := by
      rw [Nat.zero_add]
      exact Json.at?_concat_of_part? isAt isItem
    apply places_bind (ofItems _ isPlace areAtItems)
    intro nodes
    exact places_pure fun _ ofNodes => ofNodes
  case untyped =>
    rintro pointer info minItems rest position rfl areAt
    rw [readArray, if_pos rfl]
    exact places_pure fun _ => areLocated_nil
  case array =>
    rintro pointer info minItems rest item notArray notNull ofItem position rfl areAt
    rw [readArray, if_pos rfl]
    · have isPlace : position.pointer ++ "/items" =
          Json.Position.pointer (position ++ [.key "items"]) := by
        rw [Json.Position.pointer_concat, String.append_assoc]
        rfl
      apply places_bind (ofItem _ isPlace (areAt item Table.get?_cons_self))
      intro node
      exact places_pure fun _ isNode => isNode.located
    · exact notArray
    · exact notNull
  case otherKey =>
    rintro pointer info minItems key value rest isOther ofRest position rfl areAt
    unfold readArray
    rw [if_neg isOther]
    apply ofRest position rfl
    intro found isFound
    exact areAt found (by rwa [Table.get?_cons_of_ne isOther])
  case noAllOf =>
    rintro pointer place rfl -
    rw [readAdded]
    exact places_pure fun _ => by simp
  case added =>
    rintro pointer rest first second others ofSecond place rfl ⟨_, _, _, isAllOf, isAt⟩
    rw [Table.get?_cons_self] at isAllOf
    cases isAllOf
    rw [readAdded, if_pos rfl]
    apply places_bind (ofSecond place rfl isAt)
    intro node
    apply places_pure
    rintro whole isNode _ ⟨⟩
    exact ⟨second, node, isAt, rfl, isNode⟩
  case nothingAdded =>
    rintro pointer value rest notSeveral place rfl ⟨first, second, others, isAllOf, -⟩
    rw [Table.get?_cons_self] at isAllOf
    exact absurd (Option.some.inj isAllOf) (notSeveral first second others)
  case otherAllOf =>
    rintro pointer key value rest isOther ofRest place rfl ⟨first, second, others, isAllOf, isAt⟩
    unfold readAdded
    rw [if_neg isOther]
    rw [Table.get?_cons_of_ne isOther] at isAllOf
    exact ofRest place rfl ⟨first, second, others, isAllOf, isAt⟩
  case noDeclared =>
    rintro pointer required position rfl -
    rw [readDeclared]
    exact places_pure fun _ => areLocated_nil
  case declared =>
    rintro pointer required rest declared ofProperties position rfl areAt
    rw [readDeclared, if_pos rfl]
    have isAt := areAt (.object declared) Table.get?_cons_self
    apply ofProperties position rfl
    intro entry isEntry
    apply Json.at?_concat_of_part? isAt
    cases distinct.at? isAt with
    | object nodup _ => exact (Table.get?_eq_some_iff nodup).mpr isEntry
  case notDeclared =>
    rintro pointer required value rest noObject position rfl -
    rw [readDeclared, if_pos rfl]
    · exact places_pure fun _ => areLocated_nil
    · exact noObject
  case otherDeclared =>
    rintro pointer required key value rest isOther ofRest position rfl areAt
    unfold readDeclared
    rw [if_neg isOther]
    apply ofRest position rfl
    intro found isFound
    exact areAt found (by rwa [Table.get?_cons_of_ne isOther])
  case noProperty =>
    rintro pointer required position rfl -
    rw [readProperties]
    exact places_pure fun _ => areLocated_nil
  case nextProperty =>
    rintro pointer required name value rest place ofValue ofRest position rfl areAt
    obtain ⟨isAt, areAtRest⟩ := List.forall_mem_cons.mp areAt
    have isPlace : place =
        Json.Position.pointer (position ++ [.key "properties"] ++ [.key name]) :=
      (pointer_property position name).symm
    rw [readProperties]
    apply places_bind (ofValue _ isPlace isAt)
    intro type
    apply places_bind (ofRest position rfl areAtRest)
    intro properties
    apply places_pure
    intro whole ofProperties isNode
    refine areLocated_cons.mpr ⟨⟨⟨_, value, isAt, isPlace, ?_, trivial⟩, isNode.located⟩,
      ofProperties⟩
    change Reads systemId place value whole type
    rw [isPlace]
    exact isNode.reads
  case noVariants =>
    rintro pointer keyword position rfl -
    rw [readVariants]
    exact places_pure fun _ => areLocated_nil
  case variants =>
    rintro pointer key rest items ofItems position rfl areAt
    obtain ⟨isAt, -⟩ := areAt (.array items) Table.get?_cons_self
    rw [readVariants, if_pos rfl]
    apply ofItems position rfl
    intro place item isItem
    rw [Nat.zero_add]
    exact Json.at?_concat_of_part? isAt isItem
  case notVariants =>
    rintro pointer key rest value noArray position rfl areAt
    obtain ⟨-, items, isArray⟩ := areAt value Table.get?_cons_self
    exact absurd isArray (noArray items)
  case otherVariants =>
    rintro pointer keyword key value rest isOther ofRest position rfl areAt
    unfold readVariants
    rw [if_neg isOther]
    apply ofRest position rfl
    intro found isFound
    exact areAt found (by rwa [Table.get?_cons_of_ne isOther])

/-! ## Documents -/

section Documents

variable {systemId : String} {root : Json}

theorem places_readNode (distinct : root.DistinctKeys) (lists : root.HasLists)
    {position : Json.Position} {value : Json} (isAt : root.at? position = some value) :
    Places root (IsLocatedNode systemId root position value)
      (readNode systemId position.pointer value) :=
  (places systemId distinct lists).1 position.pointer value position rfl isAt

theorem places_readDefinitions (distinct : root.DistinctKeys) (lists : root.HasLists)
    {keyword : String} {entries : Json.Members}
    (areAt : ∀ entry ∈ entries, root.at? [.key keyword, .key entry.1] = some entry.2) :
    Places root
      (fun whole definitions => AreLocated systemId root whole (definitions.map .ofDefinition))
      (readDefinitions systemId keyword entries) := by
  induction entries with
  | nil => exact places_pure fun _ => areLocated_nil
  | cons entry rest ih =>
      obtain ⟨name, body⟩ := entry
      obtain ⟨isAt, areAtRest⟩ := List.forall_mem_cons.mp areAt
      have later := ih areAtRest
      rw [readDefinitions]
      apply places_after (places_poll fun _ => trivial)
      intro _
      extract_lets pointer
      have isPlace : pointer = Json.Position.pointer [.key keyword, .key name] := rfl
      clear_value pointer
      subst isPlace
      split
      · exact later
      · split
        · apply places_bind (places_readNode distinct lists isAt)
          intro node
          apply places_bind later
          intro definitions
          apply places_pure
          intro whole ofRest isNode
          exact areLocated_cons.mpr ⟨⟨⟨_, _, isAt, rfl, isNode.reads, trivial⟩, isNode.located⟩,
            ofRest⟩
        · exact places_after (places_reportAt isAt fun _ _ => trivial) fun _ => later

/-- Everything that is read of a document is located, and all problems in it are reported at
positions. -/
theorem places_readDocument (systemId rootName : String) (distinct : root.DistinctKeys)
    (lists : root.HasLists) :
    Places root (fun whole document => AreLocated systemId root whole document.parts)
      (readDocument systemId rootName root) := by
  rw [readDocument]
  apply places_after_ofExcept
  intro members isObject
  obtain rfl : root = .object members := by
    cases root with
    | object _ => rw [Except.ok.inj isObject]
    | _ => cases isObject
  extract_lets keyword
  have isRoot : (Json.object members).at? [] = some (.object members) := rfl
  apply places_after_ofExcept
  intro entries areEntries
  have areAt (entry : String × Json) (isEntry : entry ∈ entries) :
      (Json.object members).at? [.key keyword, .key entry.1] = some entry.2 := by
    have isValue := Loading.get?_of_optionalMembers areEntries isEntry
    have nodup := Loading.distinct_of_optionalMembers (distinct.memberOrNull keyword) areEntries
    have isAt : (Json.object members).at? [.key keyword] = some (.object entries) :=
      Json.at?_concat_of_part? isRoot isValue
    exact Json.at?_concat_of_part? isAt ((Table.get?_eq_some_iff nodup).mpr isEntry)
  apply places_bind (places_readDefinitions distinct lists areAt)
  intro definitions
  extract_lets finish
  have finishes (root? : Option Node) : Places (.object members) (fun whole document =>
      AreLocated systemId (.object members) whole (root?.toList.map .ofNode) →
      AreLocated systemId (.object members) whole (definitions.map .ofDefinition) →
        AreLocated systemId (.object members) whole document.parts) (finish root?) :=
    places_pure fun _ ofRoot ofDefinitions => areLocated_append.mpr ⟨ofDefinitions, ofRoot⟩
  split
  · rw [bind_map_left]
    apply places_bind (places_readNode distinct lists isRoot)
    intro node
    apply (finishes (some node)).mono
    intro whole document holds isNode
    exact holds isNode.located
  · apply (finishes none).mono
    intro whole document holds
    exact holds areLocated_nil

end Documents

/-- Reading a document comes to an end, with a fault or not.  If no key in the document has a slash,
and alternatives and the parts of derivations are lists, every problem is reported at a pointer that
can be followed, and so can the pointer of everything that is read: it leads to the value from which
this is read.  Pointers to different values are different. -/
theorem located_of_readDocument (systemId rootName : String) {root : Json}
    (distinct : root.DistinctKeys) (free : root.IsSlashFree) (lists : root.HasLists) :
    (∃ transcript result, Ends (readDocument systemId rootName root) transcript result ∧
      (∀ diagnostic, .notify diagnostic ∈ transcript → ∃ position value,
        root.at? position = some value ∧ diagnostic.location = some position.pointer ∧
          root.follow? position.pointer = some value) ∧
      ∀ document, result = .ok document → ∀ part, document.Contains part → ∃ position value,
        root.at? position = some value ∧ part.pointer = position.pointer ∧
          root.follow? part.pointer = some value ∧
          part.IsReadFrom systemId transcript value ∧ part.Shows systemId transcript value) ∧
    ∀ position other value found, root.at? position = some value → root.at? other = some found →
      position ≠ other → Json.Position.pointer position ≠ Json.Position.pointer other := by
  constructor
  · obtain ⟨transcript, result, ends, arePlaced, located⟩ :=
      places_readDocument systemId rootName distinct lists
    refine ⟨transcript, result, ends, ?diagnostics, ?parts⟩
    case diagnostics =>
      intro diagnostic isReported
      obtain ⟨position, value, isAt, isPlace⟩ := arePlaced _ isReported diagnostic rfl
      exact ⟨position, value, isAt, isPlace, free.follow?_pointer isAt⟩
    case parts =>
      rintro document isDocument part ⟨whole, isPart, isIn⟩
      obtain ⟨position, value, isAt, isPlace, isRead, shows⟩ :=
        located document isDocument transcript (List.Subset.refl _) whole isPart part isIn
      have leads : root.follow? part.pointer = some value := by
        rw [isPlace]
        exact free.follow?_pointer isAt
      exact ⟨position, value, isAt, isPlace, leads, isRead, shows⟩
  · intro position other value found isAt isAtToo differ same
    exact differ (free.eq_of_pointer_eq isAt isAtToo same)

/-- A document with two alternatives, one of which has no values to choose from. -/
def sizes : Json :=
  .object [("definitions", .object [("Size", .object [("oneOf", .array
    [.object [("enum", .array [])], .object [("const", .integer 5)]])])])]

/-- What is read of it. -/
def sizesDocument : Document where
  systemId := "file:///work/sizes.json"
  rootName := "Sizes"
  root := none
  definitions :=
    [{ name := "Size", pointer := "#/definitions/Size"
       body := .union { pointer := "#/definitions/Size" } .oneOf
         [.enum { pointer := "#/definitions/Size/oneOf/0" } [] "string" (.object []),
          .const { pointer := "#/definitions/Size/oneOf/1" } (.integer 5) "integer"] }]
  package := .null

/-- The channel after it is read. -/
def sizesChannel : Channel where
  polls := 1
  errors := 1
  events :=
    [.diagnosed .error (enumReport "file:///work/sizes.json" "#/definitions/Size/oneOf/0")]

theorem located_sizes :
    sizes.DistinctKeys ∧ sizes.IsSlashFree ∧ sizes.HasLists ∧
      onChannel (readDocument "file:///work/sizes.json" "Sizes" sizes) {} =
        (.ok sizesDocument, sizesChannel) ∧
      ∃ transcript, Ends (readDocument "file:///work/sizes.json" "Sizes" sizes) transcript
          (.ok sizesDocument) ∧
        (∀ diagnostic, .notify diagnostic ∈ transcript → ∃ position value,
          sizes.at? position = some value ∧ diagnostic.location = some position.pointer ∧
            sizes.follow? position.pointer = some value) ∧
        ∀ part, sizesDocument.Contains part → ∃ value,
          sizes.follow? part.pointer = some value ∧
            part.IsReadFrom "file:///work/sizes.json" transcript value := by
  have distinct : sizes.DistinctKeys := by
    refine .object (List.nodup_singleton _) (List.forall_mem_singleton.mpr ?_)
    refine .object (List.nodup_singleton _) (List.forall_mem_singleton.mpr ?_)
    refine .object (List.nodup_singleton _) (List.forall_mem_singleton.mpr (.array ?_))
    refine List.forall_mem_cons.mpr ⟨.object (List.nodup_singleton _) ?_, ?_⟩
    · exact List.forall_mem_singleton.mpr (.array (List.forall_mem_nil _))
    · refine List.forall_mem_singleton.mpr (.object (List.nodup_singleton _) ?_)
      exact List.forall_mem_singleton.mpr (.integer 5)
  have free : sizes.IsSlashFree := by
    unfold Json.IsSlashFree
    simp only [sizes, Json.objects, Json.objectsOfItems, Json.objectsOfMembers]
    decide
  have lists : sizes.HasLists := by
    simp [Json.HasLists, sizes, Json.objects, Json.objectsOfItems, Json.objectsOfMembers,
      Table.get?, List.lookup_cons]
  have returns : onChannel (readDocument "file:///work/sizes.json" "Sizes" sizes) {} =
      (.ok sizesDocument, sizesChannel) := by rfl
  obtain ⟨⟨transcript, result, ends, placed, located⟩, -⟩ :=
    located_of_readDocument "file:///work/sizes.json" "Sizes" distinct free lists
  obtain ⟨rfl, -⟩ := ends.of_returned returns
  refine ⟨distinct, free, lists, returns, transcript, ends, placed, ?_⟩
  intro part isPart
  obtain ⟨_, value, -, -, leads, isRead, -⟩ := located sizesDocument rfl part isPart
  exact ⟨value, leads, isRead⟩

end SchemaReader

end Typeloom
