import Typeloom.Proofs.Report.Repetition
import Typeloom.Schema.Reader

/-!
# What readers return

What holds of a node that is read follows from what holds of the parts that are read for it.  One
rule is for the properties of a node, which are read before the node is put together, and one for a
derivation with its base, its second part and the properties beside these.  A node carries the place
at which it is read, and a definition is read from an entry of its name.
-/

namespace Typeloom

open Reporting

namespace SchemaReader

section Rules

variable {systemId pointer : String} {info : NodeInfo} {members : Json.Members}
  {ofDeclared : List (Property Node) → Prop}

/-- The properties of a node are read before what comes next. -/
theorem returns_properties {α : Type} {post : α → Prop}
    {next : List (Property Node) → Reporting α}
    (declares : ∀ required, Returns ofDeclared (readDeclared systemId pointer required members))
    (returnsNext : ∀ properties, ofDeclared properties → Returns post (next properties)) :
    Returns post (do
      let required ← ofExcept (requiredOf members)
      let declared ← ofExcept (declaredOf members)
      let properties ← readDeclared systemId pointer required members
      warnUndeclared systemId pointer required declared
      next properties) := by
  refine returns_after fun required => returns_after fun declared => ?_
  refine returns_bind (declares required) fun properties holds => ?_
  exact returns_after fun _ => returnsNext properties holds

/-- A derivation is read with its base, its added part and the properties beside that. -/
theorem returns_derivation {parts : Json} {ofBase : Option Reference → Prop}
    {ofAdded : Option (Body Node) → Prop} {post : Node → Prop}
    (bases : Returns ofBase (readBase systemId pointer parts))
    (adds : Returns ofAdded (readAdded systemId (pointer ++ "/allOf/1") members))
    (addsNothing : ∀ count, parts.count = .ok count → ¬2 ≤ count → ofAdded none)
    (declares : ∀ required, Returns ofDeclared (readDeclared systemId pointer required members))
    (joined : ∀ base added properties, ofBase base → ofAdded added → ofDeclared properties →
      post (.allOf info base (joinBodies added (some { info := { pointer }, properties }))))
    (alone : ∀ base added, Json.hasMember members "properties" = false → ofBase base →
      ofAdded added → post (.allOf info base (joinBodies added none))) :
    Returns post (do
      let base ← readBase systemId pointer parts
      let count ← ofExcept parts.count
      let added ←
        if 2 ≤ count then readAdded systemId (pointer ++ "/allOf/1") members else pure none
      let siblings ←
        if Json.hasMember members "properties" then do
          let required ← ofExcept (requiredOf members)
          let declared ← ofExcept (declaredOf members)
          let properties ← readDeclared systemId pointer required members
          warnUndeclared systemId pointer required declared
          pure (some { info := { pointer }, properties })
        else pure none
      return .allOf info base (joinBodies added siblings)) := by
  refine returns_bind bases fun base isBase => ?_
  refine returns_bind returns_ofExcept fun count isCount => ?_
  extract_lets addSiblings
  have addsSiblings (added : Option (Body Node)) (isAdded : ofAdded added) :
      Returns post (addSiblings added) := by
    dsimp only [addSiblings]
    split
    · exact returns_properties declares fun properties areDeclared =>
        returns_pure (joined base added properties isBase isAdded areDeclared)
    · rename_i noMember
      have lacks := Bool.eq_false_iff.mpr noMember
      exact returns_pure (alone base added lacks isBase isAdded)
  split
  · exact returns_bind adds addsSiblings
  · rename_i isShort
    exact addsSiblings none (addsNothing count isCount isShort)

end Rules

/-- What is read for the items of an array is an array or a tuple. -/
theorem returns_readArray {systemId pointer : String} {info : NodeInfo} {minItems : Json}
    (members : Json.Members) :
    Returns (fun node => (∃ item, node = .array info item minItems) ∨
      ∃ items, node = .tuple info items minItems)
      (readArray systemId pointer info minItems members) := by
  induction members with
  | nil => exact returns_pure (Or.inl ⟨none, rfl⟩)
  | cons member rest ih =>
      obtain ⟨key, value⟩ := member
      unfold readArray
      split
      · split
        · exact returns_after fun items => returns_pure (Or.inr ⟨items, rfl⟩)
        · exact returns_pure (Or.inl ⟨none, rfl⟩)
        · exact returns_after fun item => returns_pure (Or.inl ⟨some item, rfl⟩)
      · exact ih

theorem returns_readEnumeration {systemId : String} {info : NodeInfo} {members : Json.Members}
    (values : Json) :
    Returns (fun node => ∃ items type names, node = .enum info items type names)
      (readEnumeration systemId info members values) := by
  unfold readEnumeration
  extract_lets finish
  have finishes (items : List Json) : Returns
      (fun node => ∃ items type names, node = Node.enum info items type names) (finish items) :=
    returns_pure ⟨_, _, _, rfl⟩
  split
  · exact finishes _
  · exact returns_after fun _ => finishes []

/-! ## The places of nodes -/

/-- What is read from an object carries its place and its metadata. -/
theorem returns_info (systemId pointer : String) (members : Json.Members) :
    Returns (fun node => node.info = { pointer, metadata := metadataOf members })
      (readNode systemId pointer (.object members)) := by
  have declares (required : List Json) :=
    returns_true (readDeclared systemId pointer required members)
  rw [readNode]
  refine returns_after fun _ => ?_
  extract_lets info
  split
  case h_3 => exact returns_after fun _ => returns_pure rfl
  case h_4 =>
    exact returns_derivation (returns_true _) (returns_true _) (fun _ _ _ => trivial) declares
      (fun _ _ _ _ _ _ => rfl) fun _ _ _ _ _ => rfl
  case h_5 values _ =>
    refine (returns_readEnumeration values).mono ?_
    rintro node ⟨items, type, names, rfl⟩
    rfl
  case h_8 type _ _ _ =>
    extract_lets single
    split
    · refine (returns_readArray members).mono ?_
      rintro node (⟨item, rfl⟩ | ⟨items, rfl⟩) <;> rfl
    · split
      · exact returns_properties declares fun _ _ => returns_pure rfl
      · exact returns_pure rfl
  case h_9 => exact returns_properties declares fun _ _ => returns_pure rfl
  all_goals exact returns_pure rfl

/-- A node is at the place at which it is read. -/
theorem returns_pointer (systemId pointer : String) (value : Json) :
    Returns (fun node => node.pointer = pointer) (readNode systemId pointer value) := by
  cases value with
  | object members =>
      exact (returns_info systemId pointer members).mono
        fun _ carries => congrArg NodeInfo.pointer carries
  | _ =>
      rw [readNode]
      · exact returns_after fun _ => returns_pure rfl
      · simp

/-- Whether a node is what a value at a place in a document is read as. -/
def ReadsAs (systemId pointer : String) (value : Json) (node : Node) : Prop :=
  ∃ channel after, onChannel (readNode systemId pointer value) channel = (.ok node, after)

theorem ReadsAs.holds {systemId pointer : String} {value : Json} {node : Node}
    {post : Node → Prop} (reads : ReadsAs systemId pointer value node)
    (returned : Returns post (readNode systemId pointer value)) : post node := by
  obtain ⟨channel, after, returns⟩ := reads
  exact returned channel after node returns

/-! ## The definitions of a document -/

/-- The place of a definition under a keyword. -/
def placeOf (keyword name : String) : String :=
  "#/" ++ keyword ++ "/" ++ name

/-- Whether a definition is read from one of the entries under a keyword. -/
def StemsFrom (systemId keyword : String) (entries : Json.Members) (definition : Definition) :
    Prop :=
  ∃ body, (definition.name, body) ∈ entries ∧
    ReadsAs systemId (placeOf keyword definition.name) body definition.body

theorem StemsFrom.cons {systemId keyword : String} {entries : Json.Members}
    {definition : Definition} (stems : StemsFrom systemId keyword entries definition)
    (entry : String × Json) : StemsFrom systemId keyword (entry :: entries) definition := by
  obtain ⟨body, isEntry, reads⟩ := stems
  exact ⟨body, List.mem_cons_of_mem entry isEntry, reads⟩

theorem stemsFrom_readDefinitions (systemId keyword : String) (entries : Json.Members) :
    Returns (fun definitions => ∀ definition ∈ definitions,
      StemsFrom systemId keyword entries definition)
      (readDefinitions systemId keyword entries) := by
  induction entries with
  | nil => exact returns_pure (by simp)
  | cons entry rest ih =>
      obtain ⟨name, body⟩ := entry
      have later : Returns (fun definitions => ∀ definition ∈ definitions,
          StemsFrom systemId keyword ((name, body) :: rest) definition)
          (readDefinitions systemId keyword rest) :=
        ih.mono fun definitions stem definition occurs => (stem definition occurs).cons _
      rw [readDefinitions]
      refine returns_after fun _ => ?_
      extract_lets pointer
      split
      · exact later
      · split
        · rename_i members _
          have first : Returns (ReadsAs systemId (placeOf keyword name) (.object members))
              (readNode systemId pointer (.object members)) :=
            fun channel after node returns => ⟨channel, after, returns⟩
          refine returns_bind first fun node reads => ?_
          refine returns_bind later fun definitions stem => returns_pure ?_
          exact List.forall_mem_cons.mpr ⟨⟨_, List.mem_cons_self, reads⟩, stem⟩
        · exact returns_after fun _ => later

end SchemaReader

end Typeloom
