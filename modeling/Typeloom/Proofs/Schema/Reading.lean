import Typeloom.Proofs.Report.Scripted
import Typeloom.Proofs.Schema.Shape

/-!
# Reading well-shaped documents

Reading a document comes to an end, and only reports on the way.  If the document is well-shaped
and its references lead to documents, then reading meets no fault, and the nodes it yields have
all that their translation asks for.
-/

namespace Typeloom

open Forest Reporting SchemaReader

/-- Whether a reference of a document stays inside of the document or leads to one. -/
def Resolves (systemId target : String) : Prop :=
  Text.beginsWith target "#" = true ∨ ∃ found, Uri.documentOf systemId target = .ok found

def Reference.Resolves (systemId : String) (reference : Reference) : Prop :=
  ∃ target, reference.target = .text target ∧ Typeloom.Resolves systemId target

/-- Whether the description of a node is a text, if there is one. -/
def NodeInfo.Described (info : NodeInfo) : Prop :=
  info.description.isTruthy = true → info.description.IsText

/-- Whether a node of a document has all that its translation asks for. -/
inductive Node.Sound (systemId : String) : Node → Prop where
  | primitive (info : NodeInfo) {type : Json} (named : type.IsText) :
      Sound systemId (.primitive info type)
  | const (info : NodeInfo) (value : Json) (type : String) :
      Sound systemId (.const info value type)
  | enum {info : NodeInfo} (values : List Json) (type : String) {memberNames : Json}
      (described : info.Described) (named : memberNames.HasTexts) :
      Sound systemId (.enum info values type memberNames)
  | ref {reference : Reference} (resolves : reference.Resolves systemId) :
      Sound systemId (.ref reference)
  | array (info : NodeInfo) {item : Option Node} (minItems : Json)
      (sound : ∀ node ∈ item, Sound systemId node) : Sound systemId (.array info item minItems)
  | tuple (info : NodeInfo) {items : List Node} (minItems : Json)
      (sound : ∀ node ∈ items, Sound systemId node) : Sound systemId (.tuple info items minItems)
  | object {body : Body Node} (described : body.info.Described)
      (sound : ∀ property ∈ body.properties, Sound systemId property.type) :
      Sound systemId (.object body)
  | union (info : NodeInfo) (keyword : UnionKeyword) {variants : List Node}
      (sound : ∀ node ∈ variants, Sound systemId node) :
      Sound systemId (.union info keyword variants)
  | allOf {info : NodeInfo} {base : Option Reference} {extension : Option (Body Node)}
      (described : info.Described) (resolves : ∀ reference ∈ base, reference.Resolves systemId)
      (sound : ∀ body ∈ extension, ∀ property ∈ body.properties, Sound systemId property.type) :
      Sound systemId (.allOf info base extension)

/-- Whether the types of properties have all that their translation asks for. -/
def Property.AllSound (systemId : String) (properties : List (Property Node)) : Prop :=
  ∀ property ∈ properties, property.type.Sound systemId

/-- Whether the definitions and the root of a document have all that their translation asks for. -/
structure Document.Sound (document : Document) : Prop where
  root : ∀ node ∈ document.root, node.Sound document.systemId
  definitions : ∀ definition ∈ document.definitions, definition.body.Sound document.systemId
  package : document.package.isTruthy = true → document.package.IsText

namespace SchemaReader

/-- Whether a value in a document has the shape that is asked of it, and its references lead to
documents. -/
structure Legible (systemId : String) (value : Json) : Prop where
  shape : ShapeValid value
  references : ∀ target ∈ externalReferences value, ∃ found,
    Uri.documentOf systemId target = .ok found

variable {systemId pointer : String} {members : Json.Members}

theorem Legible.part {part : Json} (legible : Legible systemId (.object members))
    (isPart : part ∈ parts members) : Legible systemId part where
  shape := (shapeValid_object_iff.mp legible.shape).2 part isPart
  references target occurs :=
    legible.references target (externalReferences_subset_of_parts isPart occurs)

theorem Legible.shapeOf (legible : Legible systemId (.object members)) : Shape members :=
  (shapeValid_object_iff.mp legible.shape).1

/-- A reference that is an object of its own leads to a document, or stays inside of its own. -/
theorem resolves_of_ownReference {target : String}
    (leads : ∀ reference ∈ ownReference members,
      ∃ found, Uri.documentOf systemId reference = .ok found)
    (isTarget : Table.get? members "$ref" = some (.text target)) : Resolves systemId target := by
  by_cases isLocal : Text.beginsWith target "#" = true
  · exact Or.inl isLocal
  · exact Or.inr (leads target (by simp [ownReference, isTarget, Json.text?, isLocal]))

theorem Legible.resolves {target : Json} (legible : Legible systemId (.object members))
    (isTarget : Table.get? members "$ref" = some target) (info : NodeInfo) :
    Reference.Resolves systemId { info, target } := by
  obtain ⟨text, rfl⟩ := legible.shapeOf.reference target isTarget
  refine ⟨text, rfl, resolves_of_ownReference (fun reference own => ?_) isTarget⟩
  refine legible.references reference ?_
  rw [externalReferences_object]
  exact List.mem_append_left _ own

theorem Legible.resolves_base {first : Json.Members} {rest : List Json} {target : Json}
    (legible : Legible systemId (.object members))
    (isAllOf : Table.get? members "allOf" = some (.array (.object first :: rest)))
    (isTarget : Table.get? first "$ref" = some target) (info : NodeInfo) :
    Reference.Resolves systemId { info, target } := by
  obtain ⟨text, rfl⟩ := legible.shapeOf.base first rest isAllOf target isTarget
  refine ⟨text, rfl, resolves_of_ownReference (fun reference own => ?_) isTarget⟩
  have isFirst : Json.object first ∈ itemsAt members "allOf" := by simp [itemsAt, isAllOf]
  refine legible.references reference (externalReferences_subset_of_itemsAt isFirst ?_)
  rw [externalReferences_object]
  exact List.mem_append_left _ own

/-- Whether the keyword that decides the kind of a node is there with its value. -/
def Form.IsGiven (members : Json.Members) : Form → Prop
  | .reference target => Table.get? members "$ref" = some target
  | .derivation parts => Table.get? members "allOf" = some parts
  | .typed type => Table.get? members "type" = some type
  | .union keyword => keyword.label ∈ ["oneOf", "anyOf", "allOf"]
  | _ => True

theorem getD_or {α : Type} {holds : α → Prop} {first rest : Option α} {default : α}
    (ofFirst : ∀ value ∈ first, holds value) (ofRest : holds (rest.getD default)) :
    holds ((first <|> rest).getD default) := by
  cases first with
  | none => exact ofRest
  | some value => exact ofFirst value rfl

/-- What holds of every keyword that is there with its value holds of the one that decides the kind
of a node, if it holds where there is none. -/
theorem holds_formOf {holds : Form → Prop} {members : Json.Members}
    (reference : ∀ target, Table.get? members "$ref" = some target → holds (.reference target))
    (const : ∀ value, Table.get? members "const" = some value → holds (.const value))
    (union : ∀ keyword ∈ [UnionKeyword.oneOf, .anyOf], holds (.union keyword))
    (derivation : ∀ parts, Table.get? members "allOf" = some parts → holds (.derivation parts))
    (enumeration : ∀ values, Table.get? members "enum" = some values →
      holds (.enumeration values))
    (typed : ∀ type, Table.get? members "type" = some type → holds (.typed type))
    (properties : holds .properties) (unrestricted : holds .unrestricted) :
    holds (formOf members) := by
  have ofKey {key : String} {form : Json → Form}
      (isGiven : ∀ value, Table.get? members key = some value → holds (form value)) :
      ∀ found ∈ (Table.get? members key).map form, holds found := by
    intro found isFound
    obtain ⟨value, known, rfl⟩ := Option.map_eq_some_iff.mp isFound
    exact isGiven value known
  refine getD_or (ofKey reference) (getD_or (ofKey const) ?_)
  refine getD_or (ofKey fun _ _ => union _ (by simp)) ?_
  refine getD_or (ofKey fun _ _ => union _ (by simp)) ?_
  refine getD_or (ofKey derivation) (getD_or (ofKey enumeration) (getD_or (ofKey typed) ?_))
  dsimp only
  cases Table.get? members "properties" with
  | none => exact unrestricted
  | some value => exact properties

theorem isGiven_formOf (members : Json.Members) : (formOf members).IsGiven members := by
  apply holds_formOf
  case reference => exact fun _ => id
  case derivation => exact fun _ => id
  case typed => exact fun _ => id
  case union =>
    intro keyword isKeyword
    simp only [List.mem_cons, List.not_mem_nil, or_false] at isKeyword
    rcases isKeyword with rfl | rfl <;> simp [Form.IsGiven, UnionKeyword.label]
  all_goals simp [Form.IsGiven]

/-! ## Reading nodes -/

theorem yields_reportAt {given : Prop} {post : Unit → Prop} (severity : Severity)
    (message place : String) (holds : given → post ()) :
    Yields given post (reportAt systemId severity message place) :=
  yields_notify _ holds

theorem yields_warnUnsupported :
    Yields True (fun _ => True) (warnUnsupported systemId pointer members) :=
  yields_forM fun _ _ => yields_reportAt _ _ _ fun _ => trivial

theorem yields_warnUndeclared (required : List Json) (declared : Json.Members) :
    Yields True (fun _ => True) (warnUndeclared systemId pointer required declared) := by
  refine yields_forM fun name _ => ?_
  dsimp only
  split
  · exact yields_pure fun _ => trivial
  · exact yields_reportAt _ _ _ fun _ => trivial

theorem Shape.exists_required (shape : Shape members) :
    ∃ required, requiredOf members = .ok required := by
  unfold requiredOf
  cases isRequired : Table.get? members "required" with
  | none => exact ⟨[], rfl⟩
  | some value =>
      obtain ⟨items, rfl, areTexts⟩ := shape.required value isRequired
      refine exists_mapM_eq_ok_iff.mpr fun item occurs => ?_
      obtain ⟨content, rfl⟩ := areTexts item occurs
      exact ⟨_, rfl⟩

theorem Shape.exists_declared (shape : Shape members) :
    ∃ declared, declaredOf members = .ok declared := by
  unfold declaredOf
  cases areProperties : Table.get? members "properties" with
  | none => exact ⟨[], rfl⟩
  | some value =>
      obtain ⟨declared, rfl⟩ := shape.properties value areProperties
      exact ⟨declared, rfl⟩

/-- The properties of a node of the right shape are read without a fault. -/
theorem yields_properties {α : Type} {given : Prop} {post : α → Prop}
    {next : List (Property Node) → Reporting α} (shape : given → Shape members)
    (reads : ∀ required, Yields given (Property.AllSound systemId)
      (readDeclared systemId pointer required members))
    (yieldsNext : ∀ properties, Yields (given ∧ Property.AllSound systemId properties) post
      (next properties)) :
    Yields given post (do
      let required ← ofExcept (requiredOf members)
      let declared ← ofExcept (declaredOf members)
      let properties ← readDeclared systemId pointer required members
      warnUndeclared systemId pointer required declared
      next properties) := by
  refine yields_after (yields_ofExcept fun isGiven => ?required) fun required => ?_
  case required => exact (shape isGiven).exists_required.imp fun _ found => ⟨found, trivial⟩
  refine yields_after (yields_ofExcept fun isGiven => ?declared) fun declared => ?_
  case declared => exact (shape isGiven).exists_declared.imp fun _ found => ⟨found, trivial⟩
  refine yields_bind (reads required) fun properties => ?_
  exact yields_after (yields_warnUndeclared required declared).always fun _ =>
    yieldsNext properties

theorem get?_metadataOf_description (members : Json.Members) :
    Table.get? (metadataOf members) "description" = Table.get? members "description" := by
  have noExtension : Table.get? (members.filter fun member => Text.beginsWith member.1 "x-")
      "description" = none := by
    rw [Table.get?_eq_none_iff, Table.keys, List.mem_map]
    rintro ⟨member, isExtension, isDescription⟩
    have begins := (List.mem_filter.mp isExtension).2
    rw [isDescription] at begins
    exact absurd begins (by decide +kernel)
  rw [Table.get?] at noExtension ⊢
  rw [metadataOf, List.lookup_append, noExtension]
  cases described : Table.get? members "description" <;>
    cases defaulted : Table.get? members "default" <;>
      simp [described, defaulted, List.lookup_cons]

theorem described_info (shape : Shape members) :
    NodeInfo.Described { pointer, metadata := metadataOf members } := by
  intro truthy
  unfold NodeInfo.description Json.memberOrNull at truthy ⊢
  rw [get?_metadataOf_description] at truthy ⊢
  cases described : Table.get? members "description" with
  | none => simp [described, Json.isTruthy] at truthy
  | some value => exact shape.description value described

theorem Shape.hasTexts_memberNames (shape : Shape members) :
    ((Table.get? members "x-enum-members").getD (.object [])).HasTexts := by
  cases areNames : Table.get? members "x-enum-members" with
  | none => exact ⟨[], rfl, by simp⟩
  | some value => exact shape.memberNames value areNames

theorem yields_readEnumeration (values : Json) :
    Yields (Shape members) (Node.Sound systemId)
      (readEnumeration systemId { pointer, metadata := metadataOf members } members values) := by
  unfold readEnumeration
  extract_lets finish
  have finishes (items : List Json) :
      Yields (Shape members) (Node.Sound systemId) (finish items) :=
    yields_pure fun shape => .enum _ _ (described_info shape) shape.hasTexts_memberNames
  split
  · exact finishes _
  · exact yields_after (yields_reportAt _ _ _ fun _ => trivial) fun _ => finishes []

/-- Whether a reference resolves if there is one. -/
def OptionResolves (systemId : String) (base? : Option Reference) : Prop :=
  ∀ reference ∈ base?, reference.Resolves systemId

/-- The base of a derivation is read without a fault if the parts are a list. -/
theorem yields_readBase {value : Json} (isAllOf : Table.get? members "allOf" = some value) :
    Yields (Legible systemId (.object members))
      (OptionResolves systemId)
      (readBase systemId pointer value) := by
  have noBase : Yields (Legible systemId (.object members))
      (OptionResolves systemId) (pure none) :=
    yields_pure fun _ => by simp [OptionResolves]
  have misplaced (place : String) : Yields (Legible systemId (.object members))
      (OptionResolves systemId)
      (readBase.misplaced systemId place) :=
    yields_after (yields_reportAt _ _ _ fun _ => trivial) fun _ => noBase
  have fails {fault : Fault} {next : Option Json → Reporting (Option Reference)}
      (noArray : ∀ items, value ≠ .array items) : Yields (Legible systemId (.object members))
      (OptionResolves systemId) (fail fault >>= next) := by
    have never (legible : Legible systemId (.object members)) : False :=
      (legible.shapeOf.alternatives "allOf" (by simp) value isAllOf).elim noArray
    exact (yields_fail never : Yields _ _ (fail fault))
  unfold readBase
  extract_lets place finish
  cases value with
  | array items =>
      change Yields _ _ (finish items.head?)
      cases items with
      | nil => exact noBase
      | cons first rest =>
          cases first with
          | object inner =>
              dsimp only [List.head?_cons, finish]
              split
              · rename_i target isTarget
                refine yields_pure fun legible => ?_
                rintro _ ⟨⟩
                exact legible.resolves_base isAllOf isTarget _
              · exact misplaced place
          | _ => exact misplaced place
  | text content =>
      change Yields _ _ (finish (content.toList.head?.map _))
      cases content.toList.head? with
      | none => exact noBase
      | some character => exact misplaced place
  | object inner =>
      cases inner with
      | nil => exact noBase
      | cons member rest => exact fails (by simp)
  | _ =>
      dsimp only
      split
      · exact fails (by simp)
      · exact noBase

/-- The parts of a node are legible, which are read for the keyword that decides its kind. -/
theorem Legible.ofParts {values : List Json} (legible : Legible systemId (.object members))
    (areParts : values ⊆ parts members) : ∀ value ∈ values, Legible systemId value :=
  fun _ occurs => legible.part (areParts occurs)

theorem allSound_joinBodies {added siblings : Option (Body Node)}
    (ofAdded : ∀ body ∈ added, Property.AllSound systemId body.properties)
    (ofSiblings : ∀ body ∈ siblings, Property.AllSound systemId body.properties) :
    ∀ body ∈ joinBodies added siblings, Property.AllSound systemId body.properties := by
  cases added with
  | none => exact ofSiblings
  | some first =>
      cases siblings with
      | none => exact ofAdded
      | some second =>
          rintro _ ⟨⟩ property occurs
          rcases List.mem_append.mp occurs with isFirst | isSecond
          · exact ofAdded first rfl property isFirst
          · exact ofSiblings second rfl property isSecond

section Kinds

variable (ofDeclared : ∀ required, Yields (∀ value ∈ valuesAt members "properties",
    Legible systemId value) (Property.AllSound systemId)
      (readDeclared systemId pointer required members))
include ofDeclared

theorem yields_object (areParts : valuesAt members "properties" ⊆ parts members) :
    Yields (Legible systemId (.object members)) (Node.Sound systemId) (do
      let required ← ofExcept (requiredOf members)
      let declared ← ofExcept (declaredOf members)
      let properties ← readDeclared systemId pointer required members
      warnUndeclared systemId pointer required declared
      return .object { info := { pointer, metadata := metadataOf members }, properties }) := by
  refine yields_properties Legible.shapeOf
    (fun required => (ofDeclared required).within fun legible => legible.ofParts areParts) ?_
  intro properties
  exact yields_pure fun ⟨legible, sound⟩ => .object (described_info legible.shapeOf) sound

/-- A derivation is read with its base, its added part and the properties beside that. -/
theorem yields_derivation {value : Json} (form : formOf members = .derivation value)
    (ofAdded : Yields (∀ item ∈ ((itemsAt members "allOf").drop 1).take 1, Legible systemId item)
      (fun body? => ∀ body ∈ body?, Property.AllSound systemId body.properties)
      (readAdded systemId (pointer ++ "/allOf/1") members)) :
    Yields (Legible systemId (.object members)) (Node.Sound systemId) (do
      let base ← readBase systemId pointer value
      let count ← ofExcept value.count
      let added ←
        if 2 ≤ count then readAdded systemId (pointer ++ "/allOf/1") members else pure none
      let siblings ←
        if Json.hasMember members "properties" then do
          let required ← ofExcept (requiredOf members)
          let declared ← ofExcept (declaredOf members)
          let properties ← readDeclared systemId pointer required members
          warnUndeclared systemId pointer required declared
          pure (some { info := { pointer }, properties })
        else pure none
      return .allOf { pointer, metadata := metadataOf members } base
        (joinBodies added siblings)) := by
  have isAllOf : Table.get? members "allOf" = some value := by
    have isGiven := isGiven_formOf members
    rwa [form] at isGiven
  refine yields_bind (yields_readBase isAllOf) fun base => ?_
  refine yields_after (yields_ofExcept fun ⟨legible, _⟩ => ?_) fun count => ?_
  · obtain ⟨items, rfl⟩ := legible.shapeOf.alternatives "allOf" (by simp) value isAllOf
    exact ⟨items.length, rfl, trivial⟩
  have finishes (added siblings : Option (Body Node)) : Yields
      (((Legible systemId (.object members) ∧ OptionResolves systemId base) ∧
        ∀ body ∈ added, Property.AllSound systemId body.properties) ∧
        ∀ body ∈ siblings, Property.AllSound systemId body.properties) (Node.Sound systemId)
      (pure (.allOf { pointer, metadata := metadataOf members } base
        (joinBodies added siblings))) :=
    yields_pure fun ⟨⟨⟨legible, resolves⟩, ofAdded⟩, ofSiblings⟩ =>
      .allOf (described_info legible.shapeOf) resolves (allSound_joinBodies ofAdded ofSiblings)
  extract_lets addSiblings
  have addsSiblings (added : Option (Body Node)) : Yields
      ((Legible systemId (.object members) ∧ OptionResolves systemId base) ∧
        ∀ body ∈ added, Property.AllSound systemId body.properties) (Node.Sound systemId)
      (addSiblings added) := by
    dsimp only [addSiblings]
    split
    · refine yields_properties (fun isGiven => isGiven.1.1.shapeOf) (fun required => ?_) ?_
      · exact (ofDeclared required).within fun isGiven =>
          isGiven.1.1.ofParts (by simp [parts, form])
      · intro properties
        exact (finishes added (some { info := { pointer }, properties })).within
          fun ⟨isGiven, sound⟩ => ⟨isGiven, by simpa using sound⟩
    · exact (finishes added none).within fun isGiven => ⟨isGiven, by simp⟩
  split
  · refine yields_bind (ofAdded.within fun isGiven => ?_) addsSiblings
    exact isGiven.1.ofParts (by simp [parts, form])
  · exact (addsSiblings none).within fun isGiven => ⟨isGiven, by simp⟩

end Kinds

theorem sound_typeNodes {types : List Json} (areTexts : ∀ type ∈ types, type.IsText) :
    ∀ node ∈ typeNodes pointer types, node.Sound systemId := by
  induction types with
  | nil => simp [typeNodes]
  | cons type rest ih =>
      obtain ⟨ofFirst, ofRest⟩ := List.forall_mem_cons.mp areTexts
      rw [typeNodes, List.forall_mem_cons]
      refine ⟨?_, ih ofRest⟩
      obtain ⟨content, rfl⟩ := ofFirst
      rw [typeNode]
      split
      · exact .array _ _ (by simp)
      · exact .primitive _ ⟨content, rfl⟩
      · simp
      · simp
      · simp

theorem isText_singleType {type : Json} (isType : type.IsText ∨ type.AreTexts)
    (notEmpty : type ≠ .array [])
    (notSeveral : ∀ first second rest, type ≠ .array (first :: second :: rest)) :
    (singleType type).IsText := by
  rcases isType with ⟨content, rfl⟩ | ⟨items, rfl, areTexts⟩
  · exact ⟨content, rfl⟩
  · match items with
    | [] => exact absurd rfl notEmpty
    | [item] => exact areTexts item (by simp)
    | first :: second :: rest => exact absurd rfl (notSeveral first second rest)

theorem allSound_addedBody {node : Node} (sound : node.Sound systemId) :
    Property.AllSound systemId (addedBody pointer node).properties := by
  cases sound with
  | object _ sound => exact sound
  | _ => simp [addedBody, Property.AllSound]

theorem reads (systemId : String) :
    (∀ pointer value, Yields (Legible systemId value) (Node.Sound systemId)
      (readNode systemId pointer value)) ∧
    (∀ pointer info minItems members,
      Yields (∀ item ∈ itemNodes members, Legible systemId item) (Node.Sound systemId)
        (readArray systemId pointer info minItems members)) ∧
    (∀ pointer index items,
      Yields (∀ item ∈ items, Legible systemId item)
        (fun nodes => ∀ node ∈ nodes, node.Sound systemId)
        (readNodes systemId pointer index items)) ∧
    (∀ pointer members,
      Yields (∀ item ∈ ((itemsAt members "allOf").drop 1).take 1, Legible systemId item)
        (fun body? => ∀ body ∈ body?, Property.AllSound systemId body.properties)
        (readAdded systemId pointer members)) ∧
    (∀ pointer required members,
      Yields (∀ value ∈ valuesAt members "properties", Legible systemId value)
        (Property.AllSound systemId) (readDeclared systemId pointer required members)) ∧
    (∀ pointer required members,
      Yields (∀ value ∈ Table.values members, Legible systemId value)
        (Property.AllSound systemId) (readProperties systemId pointer required members)) ∧
    ∀ pointer keyword members,
      Yields ((∀ value ∈ Table.get? members keyword, ∃ items, value = .array items) ∧
          ∀ item ∈ itemsAt members keyword, Legible systemId item)
        (fun nodes => ∀ node ∈ nodes, node.Sound systemId)
        (readVariants systemId pointer keyword members) := by
  -- By the recursion of the readers: what is read of a legible node is among its parts, which are
  -- legible themselves.
  refine readNode.mutual_induct _ _ _ _ _ _ _ ?node ?noNode ?noItem ?nextItem ?noArray ?tuple
    ?untyped ?array ?otherKey ?noAllOf ?added ?nothingAdded ?otherAllOf ?noDeclared ?declared
    ?notDeclared ?otherDeclared ?noProperty ?nextProperty ?noVariants ?variants ?notVariants
    ?otherVariants
  case node =>
    intro pointer members ofVariants ofDeclared ofAdded ofArray
    rw [readNode]
    refine yields_after yields_warnUnsupported.always fun _ => ?_
    extract_lets info
    have isGiven := isGiven_formOf members
    split
    case h_1 target form =>
      rw [form] at isGiven
      exact yields_pure fun legible => .ref (legible.resolves isGiven info)
    case h_2 value form => exact yields_pure fun _ => .const ..
    case h_3 keyword form =>
      rw [form] at isGiven
      refine yields_bind ((ofVariants keyword).within fun legible => ?_) fun nodes =>
        yields_pure fun isRead => .union _ _ isRead.2
      exact ⟨legible.shapeOf.alternatives _ isGiven, legible.ofParts (by simp [parts, form])⟩
    case h_4 value form => exact yields_derivation ofDeclared form ofAdded
    case h_5 values form => exact (yields_readEnumeration values).within Legible.shapeOf
    case h_6 form => exact yields_pure fun _ => .union _ _ (by simp)
    case h_7 first second rest form =>
      rw [form] at isGiven
      refine yields_pure fun legible => .union _ _ (sound_typeNodes ?_)
      exact (legible.shapeOf.type _ isGiven).elim (by simp [Json.IsText]) (by simp [Json.AreTexts])
    case h_8 type notEmpty notSeveral form =>
      rw [form] at isGiven
      extract_lets single
      have isText (legible : Legible systemId (.object members)) : single.IsText :=
        isText_singleType (legible.shapeOf.type type isGiven) notEmpty notSeveral
      split
      · rename_i isArray
        exact ofArray.within fun legible => legible.ofParts (by simp [parts, form, isArray, single])
      · rename_i notArray
        split
        · rename_i isObject
          have isObject := (Bool.and_eq_true_iff.mp isObject).1
          exact yields_object ofDeclared (by simp [parts, form, notArray, isObject, single])
        · exact yields_pure fun legible => .primitive _ (isText legible)
    case h_9 form => exact yields_object ofDeclared (by simp [parts, form])
    case h_10 form => exact yields_pure fun _ => .primitive _ ⟨_, rfl⟩
  case noNode =>
    intro value pointer noObject
    rw [readNode]
    · exact yields_after (yields_reportAt _ _ _ fun _ => trivial) fun _ =>
        yields_pure fun _ => .primitive _ ⟨_, rfl⟩
    · exact noObject
  case noItem =>
    intro pointer index
    rw [readNodes]
    exact yields_pure fun _ => by simp
  case nextItem =>
    intro pointer index item rest ofItem ofRest
    rw [readNodes]
    refine yields_bind (ofItem.within fun legible => (List.forall_mem_cons.mp legible).1)
      fun node => ?_
    refine yields_bind (ofRest.within fun legible => (List.forall_mem_cons.mp legible.1).2)
      fun nodes => ?_
    exact yields_pure fun areRead => List.forall_mem_cons.mpr ⟨areRead.1.2, areRead.2⟩
  case noArray =>
    intro pointer info minItems
    rw [readArray]
    exact yields_pure fun _ => .array _ _ (by simp)
  case tuple =>
    intro pointer info minItems rest items ofItems
    rw [readArray, if_pos rfl]
    refine yields_bind (ofItems.within fun legible => ?_) fun nodes => ?_
    · simpa [itemNodes, Table.get?] using legible
    · exact yields_pure fun areRead => .tuple _ _ areRead.2
  case untyped =>
    intro pointer info minItems rest
    rw [readArray, if_pos rfl]
    exact yields_pure fun _ => .array _ _ (by simp)
  case array =>
    intro pointer info minItems rest item notArray notNull ofItem
    rw [readArray, if_pos rfl]
    · refine yields_bind (ofItem.within fun legible => legible item ?_) fun node => ?_
      · simp [itemNodes, Table.get?]
      · exact yields_pure fun isRead => .array _ _ (by simpa using isRead.2)
    · exact notArray
    · exact notNull
  case otherKey =>
    intro pointer info minItems key value rest isOther ofRest
    unfold readArray
    rw [if_neg isOther]
    exact ofRest.within fun legible => by
      rwa [itemNodes, Table.get?_cons_of_ne isOther] at legible
  case noAllOf =>
    intro pointer
    rw [readAdded]
    exact yields_pure fun _ => by simp
  case added =>
    intro pointer rest first second others ofSecond
    rw [readAdded, if_pos rfl]
    refine yields_bind (ofSecond.within fun legible => legible second ?_) fun node => ?_
    · simp [itemsAt, Table.get?]
    · refine yields_pure ?_
      rintro ⟨-, sound⟩ _ ⟨⟩
      exact allSound_addedBody sound
  case nothingAdded =>
    intro pointer value rest notSeveral
    rw [readAdded, if_pos rfl]
    · refine yields_after (yields_reportAt _ _ _ fun _ => trivial) fun _ => yields_pure fun _ => ?_
      rintro _ ⟨⟩
      exact fun property occurs => absurd occurs List.not_mem_nil
    · exact notSeveral
  case otherAllOf =>
    intro pointer key value rest isOther ofRest
    unfold readAdded
    rw [if_neg isOther]
    exact ofRest.within fun legible => by
      rwa [itemsAt, Table.get?_cons_of_ne isOther] at legible
  case noDeclared =>
    intro pointer required
    rw [readDeclared]
    exact yields_pure fun _ => by simp [Property.AllSound]
  case declared =>
    intro pointer required rest declared ofProperties
    rw [readDeclared, if_pos rfl]
    exact ofProperties.within fun legible => by simpa [valuesAt, Table.get?] using legible
  case notDeclared =>
    intro pointer required value rest noObject
    rw [readDeclared, if_pos rfl]
    · exact yields_pure fun _ => by simp [Property.AllSound]
    · exact noObject
  case otherDeclared =>
    intro pointer required key value rest isOther ofRest
    unfold readDeclared
    rw [if_neg isOther]
    exact ofRest.within fun legible => by
      rwa [valuesAt, Table.get?_cons_of_ne isOther] at legible
  case noProperty =>
    intro pointer required
    rw [readProperties]
    exact yields_pure fun _ => by simp [Property.AllSound]
  case nextProperty =>
    intro pointer required name value rest place ofValue ofRest
    rw [readProperties]
    refine yields_bind (ofValue.within fun legible => (List.forall_mem_cons.mp legible).1)
      fun type => ?_
    refine yields_bind (ofRest.within fun legible => (List.forall_mem_cons.mp legible.1).2)
      fun properties => ?_
    exact yields_pure fun areRead => List.forall_mem_cons.mpr ⟨areRead.1.2, areRead.2⟩
  case noVariants =>
    intro pointer keyword
    rw [readVariants]
    exact yields_pure fun _ => by simp
  case variants =>
    intro pointer key rest items ofItems
    rw [readVariants, if_pos rfl]
    exact ofItems.within fun legible => by simpa [itemsAt, Table.get?] using legible.2
  case notVariants =>
    intro pointer key rest value noArray
    rw [readVariants, if_pos rfl]
    · have never : ¬((∀ found ∈ Table.get? ((key, value) :: rest) key,
          ∃ items, found = .array items) ∧
          ∀ item ∈ itemsAt ((key, value) :: rest) key, Legible systemId item) := by
        rintro ⟨isArray, -⟩
        exact (isArray value (by simp [Table.get?])).elim noArray
      refine yields_after (yields_ofExcept fun isGiven => absurd isGiven never) fun items => ?_
      refine (yields_mapM fun _ _ => ?_).within id
      exact yields_after (yields_reportAt _ _ _ fun _ => trivial) fun _ =>
        yields_pure fun _ => .primitive _ ⟨_, rfl⟩
    · exact noArray
  case otherVariants =>
    intro pointer keyword key value rest isOther ofRest
    unfold readVariants
    rw [if_neg isOther]
    exact ofRest.within fun legible => by
      rwa [itemsAt, Table.get?_cons_of_ne isOther] at legible

/-! ## Reading documents -/

theorem yields_readNode (systemId pointer : String) (value : Json) :
    Yields (Legible systemId value) (Node.Sound systemId) (readNode systemId pointer value) :=
  (reads systemId).1 pointer value

/-- Whether a document has the shape that is asked of it, and its references lead to documents. -/
structure LegibleDocument (systemId : String) (members : Json.Members) : Prop where
  shape : DocumentShape members
  references : ∀ target ∈ externalReferences (.object members), ∃ found,
    Uri.documentOf systemId target = .ok found

theorem LegibleDocument.part (legible : LegibleDocument systemId members) {part : Json}
    (isPart : part ∈ documentParts members) : Legible systemId part where
  shape := legible.shape.parts part isPart
  references target occurs := by
    refine legible.references target ?_
    rcases List.mem_append.mp isPart with inDefinitions | isRoot
    · split at inDefinitions
      · rename_i entries areDefinitions
        obtain ⟨entry, isEntry, rfl⟩ := List.mem_map.mp inDefinitions
        have isValue : entry.2 ∈ valuesAt members (definitionsKeyword members) := by
          simp only [valuesAt, areDefinitions]
          exact List.mem_map_of_mem (List.mem_filter.mp isEntry).1
        exact externalReferences_subset_of_valuesAt isValue occurs
      · cases inDefinitions
    · split at isRoot
      · rwa [List.mem_singleton.mp isRoot] at occurs
      · cases isRoot

theorem yields_readDefinitions (systemId keyword : String) (entries : Json.Members) :
    Yields (∀ entry ∈ entries, isRemark entry.1 entry.2 = false → Legible systemId entry.2)
      (fun definitions => ∀ definition ∈ definitions, definition.body.Sound systemId)
      (readDefinitions systemId keyword entries) := by
  induction entries with
  | nil => exact yields_pure fun _ => by simp
  | cons entry rest ih =>
      obtain ⟨name, body⟩ := entry
      have later : Yields (∀ entry ∈ (name, body) :: rest,
          isRemark entry.1 entry.2 = false → Legible systemId entry.2)
          (fun definitions => ∀ definition ∈ definitions, definition.body.Sound systemId)
          (readDefinitions systemId keyword rest) :=
        ih.within fun legible => (List.forall_mem_cons.mp legible).2
      rw [readDefinitions]
      refine yields_after (yields_poll fun _ => trivial) fun _ => ?_
      extract_lets pointer
      split
      · exact later
      · rename_i noRemark
        split
        · rename_i members
          refine yields_bind ((yields_readNode systemId pointer (.object members)).within ?_)
            fun node => ?_
          · exact fun legible => (List.forall_mem_cons.mp legible).1 (by simpa using noRemark)
          refine yields_bind (later.within And.left) fun definitions => ?_
          exact yields_pure fun ⟨⟨_, isNode⟩, areSound⟩ =>
            List.forall_mem_cons.mpr ⟨isNode, areSound⟩
        · exact yields_after (yields_reportAt _ _ _ fun _ => trivial) fun _ => later

theorem DocumentShape.exists_entries (shape : DocumentShape members) :
    ∃ entries, optionalMembers (Json.memberOrNull members (definitionsKeyword members)) =
        .ok entries ∧
      ∀ entry ∈ entries, isRemark entry.1 entry.2 = false → entry.2 ∈ documentParts members := by
  unfold Json.memberOrNull
  cases areDefinitions : Table.get? members (definitionsKeyword members) with
  | none => exact ⟨[], rfl, by simp⟩
  | some value =>
      have isKeyword : definitionsKeyword members ∈ ["definitions", "$defs"] := by
        unfold definitionsKeyword
        split <;> simp
      obtain ⟨entries, rfl⟩ := shape.definitions _ isKeyword value areDefinitions
      have isEntries : optionalMembers (.object entries) = .ok entries := by
        unfold optionalMembers
        cases entries <;> rfl
      refine ⟨entries, isEntries, fun entry isEntry noRemark => List.mem_append_left _ ?_⟩
      simp only [areDefinitions]
      exact List.mem_map_of_mem (List.mem_filter.mpr ⟨isEntry, by simpa using noRemark⟩)

/-- A legible document is read without a fault. -/
theorem yields_readDocument (systemId rootName : String) (members : Json.Members) :
    Yields (LegibleDocument systemId members)
      (fun document => document.systemId = systemId ∧ document.Sound)
      (readDocument systemId rootName (.object members)) := by
  have isObject : ofExcept (Json.object members).membersOf = pure members := rfl
  rw [readDocument, isObject, pure_bind]
  extract_lets keyword
  refine yields_bind (yields_ofExcept fun legible => legible.shape.exists_entries)
    fun entries => ?_
  refine yields_bind ((yields_readDefinitions systemId keyword entries).within ?_)
    fun definitions => ?_
  · rintro ⟨legible, areParts⟩ entry isEntry noRemark
    exact legible.part (areParts entry isEntry noRemark)
  extract_lets finish
  have finishes (root : Option Node) : Yields (LegibleDocument systemId members ∧
      (∀ definition ∈ definitions, definition.body.Sound systemId) ∧
        ∀ node ∈ root, node.Sound systemId)
      (fun document => document.systemId = systemId ∧ document.Sound) (finish root) := by
    refine yields_pure ?_
    rintro ⟨legible, ofDefinitions, ofRoot⟩
    refine ⟨rfl, ofRoot, ofDefinitions, fun truthy => ?_⟩
    unfold Json.memberOrNull at truthy ⊢
    cases isPackage : Table.get? members "x-package" with
    | none => simp [isPackage, Json.isTruthy] at truthy
    | some value => exact legible.shape.package value isPackage
  split
  · rename_i describesObject
    rw [bind_map_left]
    refine yields_bind ((yields_readNode systemId "#" (.object members)).within ?_) fun node => ?_
    · rintro ⟨⟨legible, -⟩, -⟩
      exact legible.part (List.mem_append_right _ (by simp [describesObject]))
    · refine (finishes (some node)).within ?_
      rintro ⟨⟨⟨legible, -⟩, ofDefinitions⟩, isNode⟩
      exact ⟨legible, ofDefinitions, by simpa using isNode⟩
  · refine (finishes none).within ?_
    rintro ⟨⟨legible, -⟩, ofDefinitions⟩
    exact ⟨legible, ofDefinitions, by simp⟩

end SchemaReader

end Typeloom
