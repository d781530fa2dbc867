import Typeloom.Proofs.Schema.Loaded
import Typeloom.Proofs.Schema.Readers
import Typeloom.Proofs.Schema.Reading

/-!
# References to other documents

The references of a document to others are collected from its JSON value, wherever they stand in
it, and the nodes of the document are read from the same value by their keywords.  No reference in
a node escapes the collection, so that a library has every document that a node refers to.
-/

namespace Typeloom

open Forest Reporting SchemaReader

/-- Whether a reference occurs in a node, at any depth. -/
inductive Node.Mentions (reference : Reference) : Node → Prop where
  | self : Mentions reference (.ref reference)
  | item {info : NodeInfo} {item : Node} {minItems : Json} :
      Mentions reference item → Mentions reference (.array info (some item) minItems)
  | tuple {info : NodeInfo} {items : List Node} {minItems : Json} {item : Node} :
      item ∈ items → Mentions reference item → Mentions reference (.tuple info items minItems)
  | object {body : Body Node} {property : Property Node} :
      property ∈ body.properties → Mentions reference property.type →
      Mentions reference (.object body)
  | variant {info : NodeInfo} {keyword : UnionKeyword} {variants : List Node} {variant : Node} :
      variant ∈ variants → Mentions reference variant →
      Mentions reference (.union info keyword variants)
  | base {info : NodeInfo} {extension : Option (Body Node)} :
      Mentions reference (.allOf info (some reference) extension)
  | extension {info : NodeInfo} {base : Option Reference} {body : Body Node}
      {property : Property Node} :
      property ∈ body.properties → Mentions reference property.type →
      Mentions reference (.allOf info base (some body))

/-- Whether a reference occurs in the root or a definition of a document. -/
def Document.Mentions (document : Document) (reference : Reference) : Prop :=
  (∃ node ∈ document.root, node.Mentions reference) ∨
    ∃ definition ∈ document.definitions, definition.body.Mentions reference

/-- Whether a reference points at another document by a text. -/
def Reference.PointsOutside (reference : Reference) (target : String) : Prop :=
  reference.target = .text target ∧ Text.beginsWith target "#" = false

/-- Whether a reference is one of those that are known, if it points at another document. -/
def Reference.IsKnown (known : List String) (reference : Reference) : Prop :=
  ∀ target, reference.PointsOutside target → target ∈ known

/-- Whether all references in a node that point at other documents are known. -/
def Node.RefersWithin (known : List String) (node : Node) : Prop :=
  ∀ reference, node.Mentions reference → reference.IsKnown known

def Property.AllWithin (known : List String) (properties : List (Property Node)) : Prop :=
  ∀ property ∈ properties, property.type.RefersWithin known

namespace Node

variable {known : List String} {info : NodeInfo}

theorem refersWithin_primitive (type : Json) : (primitive info type).RefersWithin known :=
  fun _ mentions => nomatch mentions

theorem refersWithin_const (value : Json) (type : String) :
    (const info value type).RefersWithin known :=
  fun _ mentions => nomatch mentions

theorem refersWithin_enum (values : List Json) (type : String) (memberNames : Json) :
    (enum info values type memberNames).RefersWithin known :=
  fun _ mentions => nomatch mentions

theorem refersWithin_ref {reference : Reference} (isKnown : reference.IsKnown known) :
    (ref reference).RefersWithin known := by
  intro other mentions
  cases mentions with
  | self => exact isKnown

theorem refersWithin_array {item : Option Node} (minItems : Json)
    (within : ∀ node ∈ item, node.RefersWithin known) :
    (array info item minItems).RefersWithin known := by
  intro reference mentions
  cases mentions with
  | item mentions => exact within _ rfl reference mentions

theorem refersWithin_tuple {items : List Node} (minItems : Json)
    (within : ∀ node ∈ items, node.RefersWithin known) :
    (tuple info items minItems).RefersWithin known := by
  intro reference mentions
  cases mentions with
  | tuple occurs mentions => exact within _ occurs reference mentions

theorem refersWithin_object {body : Body Node} (within : Property.AllWithin known body.properties) :
    (object body).RefersWithin known := by
  intro reference mentions
  cases mentions with
  | object occurs mentions => exact within _ occurs reference mentions

theorem refersWithin_union (keyword : UnionKeyword) {variants : List Node}
    (within : ∀ node ∈ variants, node.RefersWithin known) :
    (union info keyword variants).RefersWithin known := by
  intro reference mentions
  cases mentions with
  | variant occurs mentions => exact within _ occurs reference mentions

theorem refersWithin_allOf {base : Option Reference} {extension : Option (Body Node)}
    (isKnown : ∀ reference ∈ base, reference.IsKnown known)
    (within : ∀ body ∈ extension, Property.AllWithin known body.properties) :
    (allOf info base extension).RefersWithin known := by
  intro reference mentions
  cases mentions with
  | base => exact isKnown reference rfl
  | extension occurs mentions => exact within _ rfl _ occurs reference mentions

end Node

namespace SchemaReader

variable {known : List String} {systemId pointer : String} {members : Json.Members}

/-- Whether the references in values that point at other documents are known. -/
def Collected (known : List String) (values : List Json) : Prop :=
  ∀ value ∈ values, externalReferences value ⊆ known

theorem collected_itemsAt (collected : externalReferences (.object members) ⊆ known)
    (key : String) : Collected known (itemsAt members key) :=
  fun _ occurs => List.Subset.trans (externalReferences_subset_of_itemsAt occurs) collected

theorem collected_valuesAt (collected : externalReferences (.object members) ⊆ known)
    (key : String) : Collected known (valuesAt members key) :=
  fun _ occurs => List.Subset.trans (externalReferences_subset_of_valuesAt occurs) collected

theorem collected_itemNodes (collected : externalReferences (.object members) ⊆ known) :
    Collected known (itemNodes members) :=
  fun _ occurs => List.Subset.trans (externalReferences_subset_of_itemNodes occurs) collected

theorem isKnown_of_get? (collected : externalReferences (.object members) ⊆ known) {target : Json}
    (isTarget : Table.get? members "$ref" = some target) (info : NodeInfo) :
    Reference.IsKnown known { info, target } := by
  rintro text ⟨rfl, notLocal⟩
  refine collected ?_
  rw [externalReferences_object]
  exact List.mem_append_left _ (by simp [ownReference, isTarget, Json.text?, notLocal])

/-! ## Reading nodes -/

/-- Whether a reference is known if there is one. -/
def OptionKnown (known : List String) (base? : Option Reference) : Prop :=
  ∀ reference ∈ base?, reference.IsKnown known

theorem returns_readBase {value : Json} (isAllOf : Table.get? members "allOf" = some value)
    (collected : externalReferences (.object members) ⊆ known) :
    Returns (OptionKnown known) (readBase systemId pointer value) := by
  have noBase : Returns (OptionKnown known) (pure none) := returns_pure (by simp [OptionKnown])
  have misplaced (place : String) :
      Returns (OptionKnown known) (readBase.misplaced systemId place) :=
    returns_after fun _ => noBase
  unfold readBase
  extract_lets place finish
  cases value with
  | array items =>
      change Returns _ (finish items.head?)
      cases items with
      | nil => exact noBase
      | cons first rest =>
          cases first with
          | object inner =>
              have isFirst : Json.object inner ∈ itemsAt members "allOf" := by
                simp [itemsAt, isAllOf]
              dsimp only [List.head?_cons, finish]
              split
              · rename_i target isTarget
                refine returns_pure ?_
                rintro _ ⟨⟩
                exact isKnown_of_get? (collected_itemsAt collected "allOf" _ isFirst) isTarget _
              · exact misplaced place
          | _ => exact misplaced place
  | text content =>
      change Returns _ (finish (content.toList.head?.map _))
      cases content.toList.head? with
      | none => exact noBase
      | some character => exact misplaced place
  | object inner =>
      cases inner with
      | nil => exact noBase
      | cons member rest => exact returns_fail
  | _ =>
      dsimp only
      split
      · exact returns_fail
      · exact noBase

theorem allWithin_joinBodies {added siblings : Option (Body Node)}
    (ofAdded : ∀ body ∈ added, Property.AllWithin known body.properties)
    (ofSiblings : ∀ body ∈ siblings, Property.AllWithin known body.properties) :
    ∀ body ∈ joinBodies added siblings, Property.AllWithin known body.properties := by
  cases added with
  | none => exact ofSiblings
  | some first =>
      cases siblings with
      | none => exact ofAdded
      | some second =>
          rintro _ ⟨⟩
          exact List.forall_mem_append.mpr ⟨ofAdded first rfl, ofSiblings second rfl⟩

theorem allWithin_addedBody {node : Node} (within : node.RefersWithin known) :
    Property.AllWithin known (addedBody pointer node).properties := by
  cases node with
  | object body =>
      exact fun property occurs reference mentions => within reference (.object occurs mentions)
  | _ => simp [addedBody, Property.AllWithin]

/-- There are no references among the names of types. -/
theorem refersWithin_typeNodes (pointer : String) (types : List Json) :
    ∀ node ∈ typeNodes pointer types, node.RefersWithin known := by
  refine (typeNode.mutual_induct (fun pointer type => (typeNode pointer type).RefersWithin known)
    (fun pointer types => ∀ node ∈ typeNodes pointer types, node.RefersWithin known)
    ?empty ?anyItems ?single ?several ?array ?primitive ?noTypes ?nextType).2 pointer types
  case empty =>
    intro pointer
    rw [typeNode]
    exact Node.refersWithin_union _ (by simp)
  case anyItems =>
    intro pointer type isArray
    rw [typeNode, if_pos isArray]
    exact Node.refersWithin_array _ (by simp)
  case single =>
    intro pointer type notArray
    rw [typeNode, if_neg notArray]
    exact Node.refersWithin_primitive _
  case several =>
    intro pointer first second rest ofTypes
    rw [typeNode]
    exact Node.refersWithin_union _ ofTypes
  case array =>
    intro pointer type notEmpty notSingle notSeveral isArray
    rw [typeNode, if_pos isArray]
    · exact Node.refersWithin_array _ (by simp)
    all_goals assumption
  case primitive =>
    intro pointer type notEmpty notSingle notSeveral notArray
    rw [typeNode, if_neg notArray]
    · exact Node.refersWithin_primitive _
    all_goals assumption
  case noTypes =>
    intro pointer
    simp [typeNodes]
  case nextType =>
    intro pointer type rest ofType ofRest
    rw [typeNodes]
    exact List.forall_mem_cons.mpr ⟨ofType, ofRest⟩

/-- No reference of what is read escapes the collection of references. -/
theorem reads_within (systemId : String) (known : List String) :
    (∀ pointer value, externalReferences value ⊆ known →
      Returns (Node.RefersWithin known) (readNode systemId pointer value)) ∧
    (∀ pointer info minItems members, Collected known (itemNodes members) →
      Returns (Node.RefersWithin known) (readArray systemId pointer info minItems members)) ∧
    (∀ pointer index items, Collected known items →
      Returns (fun nodes => ∀ node ∈ nodes, node.RefersWithin known)
        (readNodes systemId pointer index items)) ∧
    (∀ pointer members, Collected known (itemsAt members "allOf") →
      Returns (fun body? => ∀ body ∈ body?, Property.AllWithin known body.properties)
        (readAdded systemId pointer members)) ∧
    (∀ pointer required members, Collected known (valuesAt members "properties") →
      Returns (Property.AllWithin known) (readDeclared systemId pointer required members)) ∧
    (∀ pointer required members, Collected known (Table.values members) →
      Returns (Property.AllWithin known) (readProperties systemId pointer required members)) ∧
    ∀ pointer keyword members, Collected known (itemsAt members keyword) →
      Returns (fun nodes => ∀ node ∈ nodes, node.RefersWithin known)
        (readVariants systemId pointer keyword members) := by
  -- By the recursion of the readers: what they read is under a keyword of an object, and the
  -- references in it have been collected with those of the object.
  refine readNode.mutual_induct _ _ _ _ _ _ _ ?node ?noNode ?noItem ?nextItem ?noArray ?tuple
    ?untyped ?array ?otherKey ?noAllOf ?added ?nothingAdded ?otherAllOf ?noDeclared ?declared
    ?notDeclared ?otherDeclared ?noProperty ?nextProperty ?noVariants ?variants ?notVariants
    ?otherVariants
  case node =>
    intro pointer members ofVariants ofDeclared ofAdded ofArray collected
    have declares (required : List Json) :=
      ofDeclared required (collected_valuesAt collected "properties")
    rw [readNode]
    refine returns_after fun _ => ?_
    extract_lets info
    have isGiven := isGiven_formOf members
    split
    case h_1 target form =>
      rw [form] at isGiven
      exact returns_pure (Node.refersWithin_ref (isKnown_of_get? collected isGiven info))
    case h_2 value form => exact returns_pure (Node.refersWithin_const value _)
    case h_3 keyword form =>
      exact returns_bind (ofVariants keyword (collected_itemsAt collected keyword.label))
        fun nodes within => returns_pure (Node.refersWithin_union keyword within)
    case h_4 value form =>
      rw [form] at isGiven
      exact returns_derivation (returns_readBase isGiven collected)
        (ofAdded (collected_itemsAt collected "allOf")) (fun _ _ _ => by simp) declares
        (fun base added properties isKnown ofAdded ofDeclared =>
          Node.refersWithin_allOf isKnown
            (allWithin_joinBodies ofAdded (by simpa using ofDeclared)))
        fun base added _ isKnown ofAdded =>
          Node.refersWithin_allOf isKnown (allWithin_joinBodies ofAdded (by simp))
    case h_5 values form =>
      refine (returns_readEnumeration values).mono ?_
      rintro node ⟨items, type, names, rfl⟩
      exact Node.refersWithin_enum items type names
    case h_6 form => exact returns_pure (Node.refersWithin_union _ (by simp))
    case h_7 first second rest form =>
      exact returns_pure (Node.refersWithin_union _ (refersWithin_typeNodes _ _))
    case h_8 type notEmpty notSeveral form =>
      extract_lets single
      split
      · exact ofArray (collected_itemNodes collected)
      · split
        · exact returns_properties declares fun _ within =>
            returns_pure (Node.refersWithin_object within)
        · exact returns_pure (Node.refersWithin_primitive single)
    case h_9 form =>
      exact returns_properties declares fun _ within =>
        returns_pure (Node.refersWithin_object within)
    case h_10 form => exact returns_pure (Node.refersWithin_primitive _)
  case noNode =>
    intro value pointer noObject _
    rw [readNode]
    · exact returns_after fun _ => returns_pure (Node.refersWithin_primitive _)
    · exact noObject
  case noItem =>
    intro pointer index _
    rw [readNodes]
    exact returns_pure (by simp)
  case nextItem =>
    intro pointer index item rest ofItem ofRest collected
    obtain ⟨first, others⟩ := List.forall_mem_cons.mp collected
    rw [readNodes]
    refine returns_bind (ofItem first) fun node within => ?_
    refine returns_bind (ofRest others) fun nodes allWithin => ?_
    exact returns_pure (List.forall_mem_cons.mpr ⟨within, allWithin⟩)
  case noArray =>
    intro pointer info minItems _
    rw [readArray]
    exact returns_pure (Node.refersWithin_array _ (by simp))
  case tuple =>
    intro pointer info minItems rest items ofItems collected
    rw [readArray, if_pos rfl]
    refine returns_bind (ofItems ?_) fun nodes within =>
      returns_pure (Node.refersWithin_tuple minItems within)
    simpa [itemNodes, Table.get?] using collected
  case untyped =>
    intro pointer info minItems rest _
    rw [readArray, if_pos rfl]
    exact returns_pure (Node.refersWithin_array _ (by simp))
  case array =>
    intro pointer info minItems rest item notArray notNull ofItem collected
    rw [readArray, if_pos rfl]
    · refine returns_bind (ofItem (collected item ?_)) fun node within =>
        returns_pure (Node.refersWithin_array minItems (by simpa using within))
      simp [itemNodes, Table.get?]
    · exact notArray
    · exact notNull
  case otherKey =>
    intro pointer info minItems key value rest isOther ofRest collected
    unfold readArray
    rw [if_neg isOther]
    rw [itemNodes, Table.get?_cons_of_ne isOther] at collected
    exact ofRest collected
  case noAllOf =>
    intro pointer _
    rw [readAdded]
    exact returns_pure (by simp)
  case added =>
    intro pointer rest first second others ofSecond collected
    rw [readAdded, if_pos rfl]
    refine returns_bind (ofSecond (collected second ?_)) fun node within => returns_pure ?_
    · simp [itemsAt, Table.get?]
    · rintro _ ⟨⟩
      exact allWithin_addedBody within
  case nothingAdded =>
    intro pointer value rest notSeveral _
    rw [readAdded, if_pos rfl]
    · refine returns_after fun _ => returns_pure ?_
      rintro _ ⟨⟩
      exact fun property occurs => absurd occurs List.not_mem_nil
    · exact notSeveral
  case otherAllOf =>
    intro pointer key value rest isOther ofRest collected
    unfold readAdded
    rw [if_neg isOther]
    rw [itemsAt, Table.get?_cons_of_ne isOther] at collected
    exact ofRest collected
  case noDeclared =>
    intro pointer required _
    rw [readDeclared]
    exact returns_pure (by simp [Property.AllWithin])
  case declared =>
    intro pointer required rest declared ofProperties collected
    rw [readDeclared, if_pos rfl]
    refine ofProperties ?_
    simpa [valuesAt, Table.get?] using collected
  case notDeclared =>
    intro pointer required value rest noObject _
    rw [readDeclared, if_pos rfl]
    · exact returns_pure (by simp [Property.AllWithin])
    · exact noObject
  case otherDeclared =>
    intro pointer required key value rest isOther ofRest collected
    unfold readDeclared
    rw [if_neg isOther]
    rw [valuesAt, Table.get?_cons_of_ne isOther] at collected
    exact ofRest collected
  case noProperty =>
    intro pointer required _
    rw [readProperties]
    exact returns_pure (by simp [Property.AllWithin])
  case nextProperty =>
    intro pointer required name value rest place ofValue ofRest collected
    obtain ⟨first, others⟩ := List.forall_mem_cons.mp collected
    rw [readProperties]
    refine returns_bind (ofValue first) fun type within => ?_
    refine returns_bind (ofRest others) fun properties allWithin => ?_
    exact returns_pure (List.forall_mem_cons.mpr ⟨within, allWithin⟩)
  case noVariants =>
    intro pointer keyword _
    rw [readVariants]
    exact returns_pure (by simp)
  case variants =>
    intro pointer key rest items ofItems collected
    rw [readVariants, if_pos rfl]
    refine ofItems ?_
    simpa [itemsAt, Table.get?] using collected
  case notVariants =>
    intro pointer key rest value noArray _
    rw [readVariants, if_pos rfl]
    · refine returns_after fun items => returns_mapM fun _ _ => ?_
      exact returns_after fun _ => returns_pure (Node.refersWithin_primitive _)
    · exact noArray
  case otherVariants =>
    intro pointer keyword key value rest isOther ofRest collected
    unfold readVariants
    rw [if_neg isOther]
    rw [itemsAt, Table.get?_cons_of_ne isOther] at collected
    exact ofRest collected

/-! ## Reading documents -/

theorem returns_readDefinitions (systemId keyword : String) {entries : Json.Members}
    (collected : Collected known (Table.values entries)) :
    Returns (fun definitions => ∀ definition ∈ definitions, definition.body.RefersWithin known)
      (readDefinitions systemId keyword entries) := by
  refine (stemsFrom_readDefinitions systemId keyword entries).mono ?_
  intro definitions stem definition occurs
  obtain ⟨body, isEntry, reads⟩ := stem definition occurs
  have ofBody := collected body (List.mem_map_of_mem isEntry)
  exact reads.holds ((reads_within systemId known).1 _ body ofBody)

theorem values_subset_of_optionalMembers {keyword : String} {entries : Json.Members}
    (areEntries : optionalMembers (Json.memberOrNull members keyword) = .ok entries) :
    Table.values entries ⊆ valuesAt members keyword := by
  intro value occurs
  obtain ⟨entry, isEntry, -⟩ := List.mem_map.mp occurs
  rwa [valuesAt, Loading.get?_of_optionalMembers areEntries isEntry]

/-- Whether a document has a given address, and the references in it that point at other documents
are known. -/
structure ReadWithin (systemId : String) (known : List String) (document : Document) : Prop where
  systemId_eq : document.systemId = systemId
  isKnown : ∀ reference, document.Mentions reference → reference.IsKnown known

theorem returns_readDocument (systemId rootName : String) (members : Json.Members) :
    Returns (ReadWithin systemId (externalReferences (.object members)))
      (readDocument systemId rootName (.object members)) := by
  have rereads := (reads_within systemId (externalReferences (.object members))).1
  have collected : Collected (externalReferences (.object members)) [.object members] := by
    simp [Collected]
  unfold readDocument
  refine returns_bind returns_ofExcept fun own isOwn => ?_
  obtain rfl : members = own := Except.ok.inj isOwn
  extract_lets keyword
  refine returns_bind returns_ofExcept fun entries areEntries => ?_
  have entriesCollected :
      Collected (externalReferences (.object members)) (Table.values entries) :=
    fun value occurs => externalReferences_subset_of_valuesAt
      (values_subset_of_optionalMembers areEntries occurs)
  refine returns_bind (returns_readDefinitions systemId keyword entriesCollected)
    fun definitions within => ?_
  extract_lets finish
  have finishes (root : Option Node)
      (rootWithin : ∀ node ∈ root, node.RefersWithin (externalReferences (.object members))) :
      Returns (ReadWithin systemId (externalReferences (.object members))) (finish root) := by
    refine returns_pure ⟨rfl, ?_⟩
    rintro reference (⟨node, isRoot, mentions⟩ | ⟨definition, occurs, mentions⟩)
    · exact rootWithin node isRoot reference mentions
    · exact within definition occurs reference mentions
  split
  · rw [map_eq_pure_bind, bind_assoc]
    refine returns_bind (rereads "#" (.object members) (List.Subset.refl _)) fun node ofNode => ?_
    exact finishes (some node) (by simpa using ofNode)
  · exact finishes none (by simp)

end SchemaReader

/-! ## The documents of a forest -/

namespace Forest

variable {read : String → Except Fault (List UInt8)} {directory sources : List String}
  {channel after : Channel}

namespace Growth

/-- Whether an address is settled or still to be looked at. -/
def Awaits (growth : Growth) (systemId : String) : Prop :=
  growth.isSettled systemId = true ∨ ∃ candidate ∈ growth.pending, candidate.systemId = systemId

/-- Whether the references of the documents in a growth lead to addresses that are settled or
still to be looked at. -/
def IsClosed (growth : Growth) : Prop :=
  ∀ entry ∈ growth.documents, ∀ reference ∈ externalReferences (.object entry.2),
    ∃ target, Uri.documentOf entry.1 reference = .ok target ∧ growth.Awaits target

theorem isSettled_iff {growth : Growth} {systemId : String} :
    growth.isSettled systemId = true ↔
      systemId ∈ growth.failed ∨ systemId ∈ Table.keys growth.documents := by
  rw [isSettled, Bool.or_eq_true, List.contains_iff_mem, Table.contains_iff]

/-- What is awaited stays so when the first address to be looked at becomes settled. -/
theorem Awaits.next {growth next : Growth} {candidate : Candidate} {pending : List Candidate}
    {systemId : String} (isPending : growth.pending = candidate :: pending)
    (failed : growth.failed ⊆ next.failed)
    (documents : Table.keys growth.documents ⊆ Table.keys next.documents)
    (later : pending ⊆ next.pending) (settled : next.isSettled candidate.systemId = true)
    (awaits : growth.Awaits systemId) : next.Awaits systemId := by
  rcases awaits with isSettled | ⟨other, occurs, rfl⟩
  · rw [isSettled_iff] at isSettled
    exact Or.inl (isSettled_iff.mpr (isSettled.imp (@failed _) (@documents _)))
  · rw [isPending] at occurs
    rcases List.mem_cons.mp occurs with rfl | isLater
    · exact Or.inl settled
    · exact Or.inr ⟨other, later isLater, rfl⟩

theorem IsClosed.step {growth next : Growth} (closed : growth.IsClosed)
    (advances : Advances read growth next) : next.IsClosed := by
  cases advances with
  | @settled candidate pending isPending settled =>
      intro entry isKnown reference occurs
      obtain ⟨target, leads, awaits⟩ := closed entry isKnown reference occurs
      exact ⟨target, leads, awaits.next isPending (List.Subset.refl _) (List.Subset.refl _)
        (List.Subset.refl _) settled⟩
  | @failed candidate pending isPending =>
      intro entry isKnown reference occurs
      obtain ⟨target, leads, awaits⟩ := closed entry isKnown reference occurs
      refine ⟨target, leads, awaits.next isPending (List.subset_append_left _ _)
        (List.Subset.refl _) (List.Subset.refl _) ?_⟩
      exact isSettled_iff.mpr (Or.inl (by simp))
  | @grown candidate pending members found isPending reads refers =>
      set next := Growth.grown { growth with pending } candidate members found
      have settled : next.isSettled candidate.systemId = true :=
        isSettled_iff.mpr (Or.inr (Table.mem_keys_set.mpr (Or.inl rfl)))
      intro entry isKnown reference occurs
      rcases Table.mem_set isKnown with rfl | old
      · obtain ⟨target, leads⟩ := exists_mapM_eq_ok_iff.mp ⟨found, refers⟩ reference occurs
        refine ⟨target, leads, ?_⟩
        have isTarget : target ∈ found := (mem_of_mapM_eq_ok refers).mpr ⟨reference, occurs, leads⟩
        by_cases isAdded : Table.contains next.documents target = true
        · exact Or.inl (isSettled_iff.mpr (Or.inr (Table.contains_iff.mp isAdded)))
        · refine Or.inr ⟨⟨target, false⟩, List.mem_append_right _ (List.mem_map.mpr ?_), rfl⟩
          have isUnknown := Bool.eq_false_of_not_eq_true isAdded
          exact ⟨target, List.mem_filter.mpr ⟨isTarget, (Bool.not_eq_true' _).mpr isUnknown⟩, rfl⟩
      · obtain ⟨target, leads, awaits⟩ := closed entry old reference occurs
        exact ⟨target, leads, awaits.next isPending (List.Subset.refl _)
          (fun _ isKey => Table.mem_keys_set.mpr (Or.inr isKey)) (List.subset_append_left _ _)
          settled⟩

end Growth

/-- The references of the documents of a forest lead to documents of the forest. -/
theorem exists_target_of_load {forest : Forest} (ends : Ends read directory sources channel)
    (returns : onChannel (load read directory sources) channel = (.ok (some forest), after))
    {entry : String × Json.Members} (isKnown : entry ∈ forest.documents) {reference : String}
    (occurs : reference ∈ externalReferences (.object entry.2)) :
    ∃ target ∈ Table.keys forest.documents, Uri.documentOf entry.1 reference = .ok target := by
  obtain ⟨roots, growth, _, passes, noFailure, isPending, isForest⟩ :=
    exists_growth_of_load ends returns
  have closed : growth.IsClosed :=
    Passes.keeps Growth.IsClosed passes
      (fun _ _ _ _ closed taken => closed.step (Growth.advances_of_step taken))
      (by simp [Growth.IsClosed, Growth.ofRoots])
  rw [isForest] at isKnown ⊢
  obtain ⟨target, leads, settled | ⟨_, isAwaited, _⟩⟩ := closed entry isKnown reference occurs
  · rw [Growth.isSettled_iff, noFailure] at settled
    exact ⟨target, settled.resolve_left List.not_mem_nil, leads⟩
  · rw [isPending] at isAwaited
    cases isAwaited

end Forest

/-! ## The documents of a library -/

namespace Library

/-- The document of an address that is known is found, by the address and by its number. -/
theorem exists_indexOf? (library : Library) {systemId : String}
    (isKnown : systemId ∈ library.documents.map Document.systemId) :
    ∃ index document, library.indexOf? systemId = some index ∧
      library.documents[index]? = some document ∧ library.document? systemId = some document := by
  cases found : library.indexOf? systemId with
  | none =>
      obtain ⟨document, occurs, rfl⟩ := List.mem_map.mp isKnown
      have differs := List.findIdx?_eq_none_iff.mp found document occurs
      simp at differs
  | some index =>
      obtain ⟨inside, -, -⟩ := List.findIdx?_eq_some_iff_getElem.mp found
      refine ⟨index, library.documents[index], rfl, List.getElem?_eq_getElem inside, ?_⟩
      rw [indexOf?] at found
      rw [document?, List.find?_eq_bind_findIdx?_getElem?, found]
      exact List.getElem?_eq_getElem inside

/-- A reference that leads to a document points at what that document has at its place. -/
theorem resolve_of_indexOf? {library : Library} {origin index : Nat} {document found : Document}
    {reference : Reference} {target systemId : String}
    (isOrigin : library.documents[origin]? = some document)
    (outside : reference.PointsOutside target)
    (leads : Uri.documentOf document.systemId target = .ok systemId)
    (isIndex : library.indexOf? systemId = some index)
    (isFound : library.documents[index]? = some found) :
    library.resolve origin reference = .ok (targetIn index found (fragmentOf target)) := by
  have leadsTo : library.documentIndex? origin document.systemId target = .ok (some index) := by
    rw [documentIndex?, if_neg (by simp [outside.2]), leads, ← isIndex]
    rfl
  have resolvesText : library.resolveText origin target =
      .ok (targetIn index found (fragmentOf target)) := by
    simp only [resolveText, isOrigin]
    rw [leadsTo]
    simp only [Except.bind, bind]
    rw [isFound]
    rfl
  rw [resolve, outside.1]
  exact resolvesText

end Library

namespace Loading

theorem returns_readDocuments (entries : Table String Json.Members) :
    Returns (fun documents => ∀ document ∈ documents, ∃ entry ∈ entries,
      ReadWithin entry.1 (externalReferences (.object entry.2)) document)
      (readDocuments entries) := by
  refine returns_mapM fun entry isEntry => ?_
  refine returns_after fun rootName => ?_
  exact (returns_readDocument entry.1 rootName entry.2).mono fun document within =>
    ⟨entry, isEntry, within⟩

/-- In a library that is loaded each reference of a document leads to a document of the library.
What a reference points at is missing only if the document that it leads to lacks it. -/
theorem exists_document_of_mentions {read : String → Except Fault (List UInt8)}
    {directory sources : List String} {channel after : Channel} {library : Library}
    (ends : Forest.Ends read directory sources channel)
    (returns : onChannel (loadLibrary read directory sources) channel =
      (.ok (some library), after))
    {origin : Nat} {document : Document} {reference : Reference} {target : String}
    (isOrigin : library.documents[origin]? = some document)
    (mentions : document.Mentions reference) (outside : reference.PointsOutside target) :
    ∃ systemId index found, Uri.documentOf document.systemId target = .ok systemId ∧
      library.document? systemId = some found ∧ library.documents[index]? = some found ∧
      library.resolve origin reference =
        .ok (Library.targetIn index found (Library.fragmentOf target)) := by
  obtain ⟨forest?, _, loads, rest⟩ := exists_of_onChannel_bind returns
  cases forest? with
  | none => cases rest
  | some forest =>
      obtain ⟨documents, areRead, isLibrary, -⟩ := exists_of_onChannel_unless rest fun _ _ => rfl
      cases isLibrary
      have addresses : documents.map Document.systemId = Table.keys forest.documents :=
        (of_readDocuments (Forest.distinctDocuments_of_load ends loads).2 areRead).1
      obtain ⟨entry, isEntry, isOwn, isKnown⟩ :=
        returns_readDocuments _ _ _ _ areRead document (List.mem_of_getElem? isOrigin)
      obtain ⟨systemId, isAddress, leads⟩ := Forest.exists_target_of_load ends loads isEntry
        (isKnown reference mentions target outside)
      rw [← isOwn] at leads
      obtain ⟨index, found, isIndex, isFound, finds⟩ :=
        Library.exists_indexOf? { documents } (addresses ▸ isAddress)
      exact ⟨systemId, index, found, leads, finds, isFound,
        Library.resolve_of_indexOf? isOrigin outside leads isIndex isFound⟩

end Loading

/-! ## Two documents -/

/-- The definitions of two documents, of which one refers to the other. -/
def referring : Json.Members :=
  [("definitions", .object [("A", .object [("$ref", .text "b#/definitions/B")])])]

def referredTo : Json.Members :=
  [("definitions", .object [("B", .object [("type", .text "string")])])]

def readReferring (systemId : String) : Except Fault (List UInt8) :=
  if systemId = "file:///a" then
    .ok ("\x7b\"definitions\": \x7b\"A\": \x7b\"$ref\": \"b#/definitions/B\"" ++
      "\x7d\x7d\x7d").toUTF8.toList
  else .ok "\x7b\"definitions\": \x7b\"B\": \x7b\"type\": \"string\"\x7d\x7d\x7d".toUTF8.toList

namespace Forest

theorem members?_referring : members? readReferring "file:///a" = some referring := by
  decide +kernel

theorem members?_referredTo : members? readReferring "file:///b" = some referredTo := by
  decide +kernel

theorem neighbours_referring : neighbours "file:///a" referring = .ok ["file:///b"] := by
  have references : externalReferences (.object referring) = ["b#/definitions/B"] := by
    decide +kernel
  rw [neighbours, references]
  rfl

theorem neighbours_referredTo : neighbours "file:///b" referredTo = .ok [] := by
  have references : externalReferences (.object referredTo) = [] := by decide +kernel
  rw [neighbours, references]
  rfl

theorem passes_referring : ∃ states,
    Passes (Growth.step readReferring) (.ofRoots ["file:///a"]) {} states
      (.ok { documents := [("file:///a", referring), ("file:///b", referredTo)]
             roots := ["file:///a"]
             pending := [] })
      { polls := 2 } := by
  let grown : Growth :=
    { documents := [("file:///a", referring)]
      roots := ["file:///a"]
      pending := [⟨"file:///b", false⟩] }
  have first : onChannel (Growth.step readReferring (.ofRoots ["file:///a"])) {} =
      (.ok (some grown), { polls := 1 }) := by
    have isPending : (Growth.ofRoots ["file:///a"]).pending = [⟨"file:///a", true⟩] := rfl
    refine (Growth.step_of_members isPending (by decide) (by rfl)
      (members?_eq_some_iff.mp members?_referring) neighbours_referring).trans ?_
    simp [Growth.grown, Growth.add, Growth.ofRoots, Table.set, Table.contains, Table.get?, grown,
      Channel.poll]
  have second : onChannel (Growth.step readReferring grown) { polls := 1 } =
      (.ok (some { documents := [("file:///a", referring), ("file:///b", referredTo)]
                   roots := ["file:///a"]
                   pending := [] }), { polls := 2 }) := by
    have isPending : grown.pending = [⟨"file:///b", false⟩] := rfl
    refine (Growth.step_of_members isPending (by decide) (by rfl)
      (members?_eq_some_iff.mp members?_referredTo) neighbours_referredTo).trans ?_
    simp [Growth.grown, Growth.add, Table.set, grown, Channel.poll]
  exact ⟨_, .next first (.next second (.last (Growth.step_of_nil rfl _)))⟩

theorem ends_referring : Ends readReferring [] ["file:///a"] {} := by
  obtain ⟨states, passes⟩ := passes_referring
  exact ends_of_passes rfl passes

end Forest

/-- The text of the reference that a node is, if it is one. -/
def Node.referenceText? : Node → Option String
  | .ref reference => reference.target.text?
  | _ => none

theorem Node.exists_reference {node : Node} {target : String}
    (isText : node.referenceText? = some target) :
    ∃ reference, node = .ref reference ∧ reference.target = .text target := by
  cases node with
  | ref reference =>
      refine ⟨reference, rfl, ?_⟩
      rw [referenceText?] at isText
      cases isTarget : reference.target <;> rw [isTarget] at isText <;> cases isText
      rfl
  | _ => cases isText

namespace Loading

theorem loadLibrary_referring : ∃ library after,
    onChannel (loadLibrary readReferring [] ["file:///a"]) {} = (.ok (some library), after) ∧
      library.documents.map (fun document =>
        document.definitions.map fun definition => definition.body.referenceText?) =
        [[some "b#/definitions/B"], [none]] := by
  have resolved : ["file:///a"].mapM (Uri.ofSource []) = .ok ["file:///a"] := by rfl
  obtain ⟨states, passes⟩ := Forest.passes_referring
  apply exists_onChannel_eq_some
  rw [loadLibrary, onChannel_bind, Forest.onChannel_load resolved, passes.onChannel_eq]
  decide +kernel

theorem exists_document_referring : ∃ library after document reference,
    onChannel (loadLibrary readReferring [] ["file:///a"]) {} = (.ok (some library), after) ∧
      library.documents[0]? = some document ∧ document.Mentions reference ∧
      reference.PointsOutside "b#/definitions/B" ∧
      ∃ systemId index found,
        Uri.documentOf document.systemId "b#/definitions/B" = .ok systemId ∧
        library.document? systemId = some found ∧ library.documents[index]? = some found ∧
        library.resolve 0 reference =
          .ok (Library.targetIn index found (Library.fragmentOf "b#/definitions/B")) := by
  obtain ⟨library, after, loads, texts⟩ := loadLibrary_referring
  obtain ⟨document, others, areDocuments, ofDocument, -⟩ := List.map_eq_cons_iff.mp texts
  obtain ⟨definition, rest, areDefinitions, ofDefinition, -⟩ := List.map_eq_cons_iff.mp ofDocument
  obtain ⟨reference, isBody, isTarget⟩ := Node.exists_reference ofDefinition
  have isFirst : library.documents[0]? = some document := by simp [areDocuments]
  have mentions : document.Mentions reference :=
    Or.inr ⟨definition, by simp [areDefinitions], isBody ▸ .self⟩
  have outside : reference.PointsOutside "b#/definitions/B" := ⟨isTarget, by decide +kernel⟩
  exact ⟨library, after, document, reference, loads, isFirst, mentions, outside,
    exists_document_of_mentions Forest.ends_referring loads isFirst mentions outside⟩

end Loading

end Typeloom
