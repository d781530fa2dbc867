import Typeloom.Proofs.Model.Ensures

/-!
# What translating keeps

Translating follows references through aliases, takes names and builds classes and enums on its
way.  A discipline says how a state may grow meanwhile, which types may be found in it, and which
names may own what is found.  If every single addition keeps a discipline, then so does the
translation of every node.
-/

namespace Typeloom

namespace Analysis

/-- What translating keeps while the declarations stay the given ones. -/
structure Discipline (declared : Table Key Declaration) where
  /-- The names that may own what is found. -/
  Owns : String → Prop
  /-- How a state may grow. -/
  Grows : State → State → Prop
  /-- The types that may be found in a state. -/
  Admits : State → TypeExpr → Prop
  declarations_eq {before after : State} :
    Grows before after → after.declarations = before.declarations
  length_le {before after : State} :
    Grows before after → before.classes.length ≤ after.classes.length
  refl (state : State) : Grows state state
  trans {before middle after : State} :
    Grows before middle → Grows middle after → Grows before after
  keeps {before after : State} {type : TypeExpr} :
    Grows before after → Admits before type → Admits after type
  anything {state : State} : Admits state .anything
  primitive {state : State} {name : String} :
    name ∈ primitiveTypes → Admits state (.primitive name)
  literal {state : State} {name : String} {value : Json} : Admits state (.literal name value)
  optional {state : State} {type : TypeExpr} : Admits state type → Admits state type.optional
  listOf {state : State} {item : TypeExpr} : Admits state item → Admits state (.listOf item)
  tupleOf {state : State} {items : List TypeExpr} :
    (∀ item ∈ items, Admits state item) → Admits state (.tupleOf items)
  unionType {state : State} {variants : List TypeExpr} :
    (∀ variant ∈ variants, Admits state variant) → Admits state (Analysis.unionType variants)
  base {state : State} {type : TypeExpr} :
    Admits state type → type.kind = .classRef → Admits state (.instanceOf type.name)
  declaredClass {state : State} {declaration : Declaration} :
    declaration ∈ Table.values declared → declaration.kind = .classDefinition →
      Admits state (.instanceOf declaration.name)
  declaredEnum {state : State} {declaration : Declaration} :
    declaration ∈ Table.values declared → declaration.kind = .enumDefinition →
      Admits state (.memberOf declaration.name)
  declaredOwner {declaration : Declaration} :
    declaration ∈ Table.values declared → Owns declaration.name
  freshOwner {names : Table String String} {owner property : String} :
    Owns owner → Owns (freshName names (owner ++ Naming.pascalCase property))
  inlineEnum {state : State} {owner property : String} (definition : EnumDefinition) :
    state.declarations = declared → Owns owner →
    definition.name = freshName state.names (owner ++ Naming.pascalCase property) →
      Grows state ((state.reserve definition.name definition.source).withEnum definition) ∧
        Admits ((state.reserve definition.name definition.source).withEnum definition)
          (.memberOf definition.name)
  inlineClass {state after : State} {owner property : String} (definition : ClassDefinition) :
    state.declarations = declared → Owns owner →
    definition.name = freshName state.names (owner ++ Naming.pascalCase property) →
    Grows (state.reserve definition.name definition.source) after →
    (∀ name ∈ definition.base, Admits after (.instanceOf name)) →
    (∀ field ∈ definition.fields, Admits after field.type) →
      Grows state (after.withClass state.classes.length definition) ∧
        Admits (after.withClass state.classes.length definition) (.instanceOf definition.name)

namespace Discipline

variable {setting : Setting} {declared : Table Key Declaration}
  (discipline : Discipline declared) {follow : List Key → Declaration → Step TypeExpr}
  {resolving : List Key}

/-- Whether a step that yields a type keeps a discipline. -/
def Keeps (step : Step TypeExpr) : Prop :=
  ∀ ⦃state⦄, state.declarations = declared →
    Ensures step state fun type after =>
      discipline.Grows state after ∧ discipline.Admits after type

/-- Whether steps that yield several types keep a discipline. -/
def KeepsAll (step : Step (List TypeExpr)) : Prop :=
  ∀ ⦃state⦄, state.declarations = declared →
    Ensures step state fun types after =>
      discipline.Grows state after ∧ ∀ type ∈ types, discipline.Admits after type

/-- Whether steps that yield fields keep a discipline. -/
def KeepsFields (step : Step (List FieldDefinition)) : Prop :=
  ∀ ⦃state⦄, state.declarations = declared →
    Ensures step state fun fields after =>
      discipline.Grows state after ∧ ∀ field ∈ fields, discipline.Admits after field.type

/-- Whether steps that yield the name of a base keep a discipline. -/
def KeepsBase (step : Step (Option String)) : Prop :=
  ∀ ⦃state⦄, state.declarations = declared →
    Ensures step state fun base after =>
      discipline.Grows state after ∧ ∀ name ∈ base, discipline.Admits after (.instanceOf name)

/-- Whether aliases are followed in keeping with a discipline. -/
def KeepsAliases (follow : List Key → Declaration → Step TypeExpr) : Prop :=
  ∀ ⦃resolving declaration⦄, declaration ∈ Table.values declared →
    discipline.Keeps (follow resolving declaration)

theorem keeps_reference (aliases : discipline.KeepsAliases follow) (site : Site)
    (reference : Reference) :
    discipline.Keeps (translateReference setting follow resolving site reference) := by
  intro state same
  refine ensures_bind (ensures_orFault fun target? resolved => ?_)
  have unknown : Ensures (pure TypeExpr.anything) state fun type after =>
      discipline.Grows state after ∧ discipline.Admits after type :=
    ensures_pure ⟨discipline.refl state, discipline.anything⟩
  cases target? with
  | none => exact ensures_bind (ensures_reportAt unknown)
  | some target =>
      refine ensures_bind (ensures_get ?_)
      rw [same]
      cases found : Table.get? declared (target.document.systemId, target.key) with
      | none => exact unknown
      | some declaration =>
          have isDeclared := Table.mem_values_of_get? found
          simp only
          cases isOf : declaration.kind with
          | classDefinition =>
              exact ensures_pure
                ⟨discipline.refl state, discipline.declaredClass isDeclared isOf⟩
          | enumDefinition =>
              exact ensures_pure
                ⟨discipline.refl state, discipline.declaredEnum isDeclared isOf⟩
          | _ =>
              -- What is left is an alias, which is followed unless it is being followed already.
              simp only
              split
              · exact ensures_bind (ensures_reportAt unknown)
              · exact aliases isDeclared same

theorem keeps_base (aliases : discipline.KeepsAliases follow) (site : Site) (pointer : String)
    (base : Option Reference) :
    discipline.KeepsBase (translateBase setting follow resolving site pointer base) := by
  intro state same
  cases base with
  | none => exact ensures_pure ⟨discipline.refl state, by simp⟩
  | some reference =>
      refine ensures_bind ((discipline.keeps_reference aliases _ reference same).mono ?_)
      rintro type after ⟨grows, admits⟩
      split
      · rename_i isClass
        refine ensures_pure ⟨grows, ?_⟩
        rintro name ⟨⟩
        exact discipline.base admits isClass
      · exact ensures_bind (ensures_reportAt (ensures_pure ⟨grows, by simp⟩))

theorem admits_fieldType {state : State} (property : Property Node) {type : TypeExpr}
    (admits : discipline.Admits state type) :
    discipline.Admits state (fieldType property type) := by
  rw [fieldType]
  split
  · exact admits
  · exact discipline.optional admits

theorem keeps_primitive (site : Site) (info : NodeInfo) (type : Json) :
    discipline.Keeps (primitiveType site info type) := by
  intro state same
  have unknown : Ensures (pure TypeExpr.anything) state fun type after =>
      discipline.Grows state after ∧ discipline.Admits after type :=
    ensures_pure ⟨discipline.refl state, discipline.anything⟩
  rw [primitiveType]
  split
  · exact unknown
  · refine ensures_bind (ensures_orFault fun key _ => ?_)
    split
    · rename_i name isPrimitive
      have listed : primitiveTypes.contains name = true :=
        (Option.filter_eq_some_iff.mp isPrimitive).2
      exact ensures_pure ⟨discipline.refl state, discipline.primitive (by simpa using listed)⟩
    · exact ensures_bind (ensures_reportAt unknown)

/-- Building a class with a fresh name keeps a discipline if finding its base and its fields
does. -/
theorem keeps_inlineClass {site : Site} (owned : discipline.Owns site.owner) {info : NodeInfo}
    {base : Step (Option String)} {fields : String → Step (List FieldDefinition)}
    (keepsBase : discipline.KeepsBase base)
    (keepsFields : ∀ name, discipline.Owns name → discipline.KeepsFields (fields name)) :
    discipline.Keeps (do
      let name ← takeName site.baseName (site.systemId ++ info.pointer)
      buildClass name site.systemId site.package info base (fields name)
      return .instanceOf name) := by
  intro state same
  refine ensures_bind (ensures_takeName (ensures_bind (ensures_buildClass ?_)))
  have reserved : (state.reserve (freshName state.names site.baseName)
      (site.systemId ++ info.pointer)).declarations = declared := same
  refine (keepsBase reserved).mono ?_
  rintro base middle ⟨grows, admitsBase⟩
  have stillSame := (discipline.declarations_eq grows).trans reserved
  refine (keepsFields _ (discipline.freshOwner owned) stillSame).mono ?_
  rintro fields after ⟨growsOn, admits⟩
  exact ensures_pure (discipline.inlineClass
    { name := freshName state.names site.baseName, package := site.package, base, fields
      description := info.description, source := site.systemId ++ info.pointer }
    same owned rfl (discipline.trans grows growsOn)
    (fun name isBase => discipline.keeps growsOn (admitsBase name isBase)) admits)

/-- Translating keeps a discipline at every node, at every list of nodes and at the properties of
every owner. -/
theorem keeps_translation (aliases : discipline.KeepsAliases follow) :
    (∀ site node, discipline.Owns site.owner →
      discipline.Keeps (translateNode setting follow resolving site node)) ∧
    (∀ site nodes, discipline.Owns site.owner →
      discipline.KeepsAll (translateNodes setting follow resolving site nodes)) ∧
    ∀ site properties, discipline.Owns site.owner →
      discipline.KeepsFields (translateProperties setting follow resolving site properties) := by
  refine translateNode.mutual_induct setting _ _ _ ?ref ?primitive ?const ?enum ?object ?allOf
    ?arrayOfAnything ?array ?tuple ?union ?noNode ?nextNode ?noProperty ?ignored ?nextProperty
  case ref =>
    intro site reference owned
    rw [translateNode]
    exact discipline.keeps_reference aliases site reference
  case primitive =>
    intro site info type owned
    rw [translateNode]
    exact discipline.keeps_primitive site info type
  case const =>
    intro site info value type owned state same
    rw [translateNode]
    exact ensures_pure ⟨discipline.refl state, discipline.literal⟩
  case enum =>
    intro site info values valueType memberNames owned state same
    rw [translateNode]
    refine ensures_bind (ensures_takeName ?_)
    refine ensures_bind (ensures_buildEnum fun members built => ?_)
    exact ensures_pure (discipline.inlineEnum
      { name := freshName state.names site.baseName, package := site.package, valueType, members
        description := info.description, source := site.systemId ++ info.pointer }
      same owned rfl)
  case object =>
    intro site body keeps owned
    rw [translateNode]
    exact discipline.keeps_inlineClass owned
      (fun state _ => ensures_pure ⟨discipline.refl state, by simp⟩)
      fun name ownedName => keeps name ownedName
  case allOf =>
    intro site info base extension keeps owned
    rw [translateNode]
    refine discipline.keeps_inlineClass owned
      (discipline.keeps_base aliases site info.pointer base) fun name ownedName => ?_
    cases extension with
    | none => exact fun state _ => ensures_pure ⟨discipline.refl state, by simp⟩
    | some body => exact keeps name ownedName
  case arrayOfAnything =>
    intro site info minItems owned state same
    rw [translateNode]
    exact ensures_pure ⟨discipline.refl state, discipline.listOf discipline.anything⟩
  case array =>
    intro site info item minItems keeps owned state same
    rw [translateNode]
    refine ensures_bind ((keeps owned same).mono ?_)
    rintro type after ⟨grows, admits⟩
    exact ensures_pure ⟨grows, discipline.listOf admits⟩
  case tuple =>
    intro site info items minItems keeps owned state same
    rw [translateNode]
    refine ensures_bind ((keeps owned same).mono ?_)
    rintro types after ⟨grows, admits⟩
    exact ensures_pure ⟨grows, discipline.tupleOf admits⟩
  case union =>
    intro site info keyword variants keeps owned state same
    rw [translateNode]
    refine ensures_bind ((keeps owned same).mono ?_)
    rintro types after ⟨grows, admits⟩
    exact ensures_pure ⟨grows, discipline.unionType admits⟩
  case noNode =>
    intro site owned state same
    rw [translateNodes]
    exact ensures_pure ⟨discipline.refl state, by simp⟩
  case nextNode =>
    intro site node rest keeps keepsRest owned state same
    rw [translateNodes]
    refine ensures_bind ((keeps owned same).mono ?_)
    rintro type middle ⟨grows, admits⟩
    have stillSame := (discipline.declarations_eq grows).trans same
    refine ensures_bind ((keepsRest owned stillSame).mono ?_)
    rintro types after ⟨growsOn, admitsRest⟩
    refine ensures_pure ⟨discipline.trans grows growsOn, ?_⟩
    intro other occurs
    rcases List.mem_cons.mp occurs with rfl | later
    · exact discipline.keeps growsOn admits
    · exact admitsRest other later
  case noProperty =>
    intro site owned state same
    rw [translateProperties]
    exact ensures_pure ⟨discipline.refl state, by simp⟩
  case ignored =>
    intro site property rest ignored keepsRest owned
    rw [translateProperties, if_pos ignored]
    exact keepsRest owned
  case nextProperty =>
    intro site property rest notIgnored keeps keepsRest owned state same
    rw [translateProperties, if_neg notIgnored]
    refine ensures_bind ((keeps owned same).mono ?_)
    rintro type middle ⟨grows, admits⟩
    have stillSame := (discipline.declarations_eq grows).trans same
    refine ensures_bind ((keepsRest owned stillSame).mono ?_)
    rintro fields after ⟨growsOn, admitsRest⟩
    refine ensures_pure ⟨discipline.trans grows growsOn, ?_⟩
    intro field occurs
    rcases List.mem_cons.mp occurs with rfl | later
    · exact discipline.admits_fieldType property (discipline.keeps growsOn admits)
    · exact admitsRest field later

/-- Aliases are followed in keeping with a discipline, however deep they are nested. -/
theorem keepsAliases_followAlias (depth : Nat) :
    discipline.KeepsAliases (followAlias setting depth) := by
  induction depth with
  | zero =>
      intro resolving declaration isDeclared state same
      exact ensures_pure ⟨discipline.refl state, discipline.anything⟩
  | succ depth ih =>
      intro resolving declaration isDeclared
      exact (discipline.keeps_translation ih).1 (declaration.site setting) declaration.node
        (discipline.declaredOwner isDeclared)

/-- Building what a declaration is generated as adds a class, an enum or nothing, behind what is
found on the way. -/
theorem ensures_buildDeclaration {depth : Nat} {declaration : Declaration} {state : State}
    {post : State → Prop} (isDeclared : declaration ∈ Table.values declared)
    (same : state.declarations = declared)
    (ofClass : ∀ {after} (definition : ClassDefinition),
      declaration.kind = .classDefinition → definition.name = declaration.name →
      definition.source = declaration.source → discipline.Grows state after →
      (∀ name ∈ definition.base, discipline.Admits after (.instanceOf name)) →
      (∀ field ∈ definition.fields, discipline.Admits after field.type) →
        post (after.withClass state.classes.length definition))
    (ofEnum : ∀ definition : EnumDefinition,
      declaration.kind = .enumDefinition → definition.name = declaration.name →
      definition.source = declaration.source → post (state.withEnum definition))
    (ofAlias : declaration.kind = .alias → post state) :
    Ensures (buildDeclaration setting depth declaration) state fun _ after => post after := by
  have aliases : discipline.KeepsAliases (followAlias setting depth) :=
    discipline.keepsAliases_followAlias depth
  have keepsProperties (properties : List (Property Node)) :
      discipline.KeepsFields (translateProperties setting (followAlias setting depth) []
        (declaration.site setting) properties) :=
    (discipline.keeps_translation aliases).2.2 _ properties (discipline.declaredOwner isDeclared)
  have building {info : NodeInfo} {base : Step (Option String)}
      {fields : Step (List FieldDefinition)} (isClass : declaration.kind = .classDefinition)
      (source : declaration.systemId ++ info.pointer = declaration.source)
      (keepsBase : discipline.KeepsBase base) (keepsFields : discipline.KeepsFields fields) :
      Ensures (buildClass declaration.name declaration.systemId declaration.package info base
        fields) state fun _ after => post after := by
    refine ensures_buildClass ((keepsBase same).mono ?_)
    rintro base middle ⟨grows, admitsBase⟩
    refine (keepsFields ((discipline.declarations_eq grows).trans same)).mono ?_
    rintro fields after ⟨growsOn, admits⟩
    exact ofClass _ isClass rfl source (discipline.trans grows growsOn)
      (fun name isBase => discipline.keeps growsOn (admitsBase name isBase)) admits
  have ofNothing : discipline.KeepsBase (return none) :=
    fun state _ => ensures_pure ⟨discipline.refl state, by simp⟩
  refine ensures_bind (ensures_liftM fun _ => ?_)
  cases node : declaration.node with
  | object body =>
      exact building (by simp [Declaration.kind, node])
        (by simp [Declaration.source, node, Node.pointer, Node.info]) ofNothing
        (keepsProperties body.properties)
  | allOf info base extension =>
      refine building (by simp [Declaration.kind, node])
        (by simp [Declaration.source, node, Node.pointer, Node.info])
        (discipline.keeps_base aliases _ info.pointer base) ?_
      cases extension with
      | none => exact fun state _ => ensures_pure ⟨discipline.refl state, by simp⟩
      | some body => exact keepsProperties body.properties
  | enum info values valueType memberNames =>
      refine ensures_buildEnum fun members built => ?_
      exact ofEnum _ (by simp [Declaration.kind, node]) rfl
        (by simp [Declaration.source, node, Node.pointer, Node.info])
  | _ => exact ensures_reportAt (ofAlias (by simp [Declaration.kind, node]))

end Discipline

end Analysis

end Typeloom
