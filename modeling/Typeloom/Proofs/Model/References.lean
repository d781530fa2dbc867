import Typeloom.Proofs.Model.Declarations
import Typeloom.Proofs.Model.Translation

/-!
# References to classes and enums

A type of a field refers to a class or an enum by its name.  What is referred to is either declared,
and then it is built sooner or later, or found inside of a class, and then it is built before
anything refers to it.  In the end every reference leads to a class or an enum, and every base to a
class.
-/

namespace Typeloom

/-- A type occurs in another one: as the type itself or, at any depth, in one of its arguments. -/
inductive TypeExpr.Occurs (part : TypeExpr) : TypeExpr → Prop where
  | self : Occurs part part
  | argument {argument type : TypeExpr} :
      argument ∈ type.arguments → Occurs part argument → Occurs part type

namespace Analysis

/-- Whether a type refers to nothing but classes and enums of given names. -/
def RefersTo (classes enums : String → Prop) (type : TypeExpr) : Prop :=
  ∀ part : TypeExpr, part.Occurs type →
    (part.kind = .classRef → classes part.name) ∧ (part.kind = .enumRef → enums part.name)

section RefersTo

variable {classes enums : String → Prop} {type : TypeExpr}

theorem RefersTo.mono {moreClasses moreEnums : String → Prop}
    (refers : RefersTo classes enums type)
    (classesMono : ∀ name, classes name → moreClasses name)
    (enumsMono : ∀ name, enums name → moreEnums name) : RefersTo moreClasses moreEnums type :=
  fun part occurs => (refers part occurs).imp (fun known isClass => classesMono _ (known isClass))
    fun known isEnum => enumsMono _ (known isEnum)

theorem RefersTo.argument (refers : RefersTo classes enums type) {argument : TypeExpr}
    (isArgument : argument ∈ type.arguments) : RefersTo classes enums argument :=
  fun part occurs => refers part (.argument isArgument occurs)

/-- A type that does not refer to anything itself refers to what its arguments refer to. -/
theorem refersTo_of_arguments (notClass : type.kind ≠ .classRef) (notEnum : type.kind ≠ .enumRef)
    (arguments : ∀ argument ∈ type.arguments, RefersTo classes enums argument) :
    RefersTo classes enums type := by
  intro part occurs
  cases occurs with
  | self => exact ⟨fun isClass => absurd isClass notClass, fun isEnum => absurd isEnum notEnum⟩
  | argument isArgument occurs => exact arguments _ isArgument part occurs

theorem refersTo_instanceOf {name : String} (known : classes name) :
    RefersTo classes enums (.instanceOf name) := by
  intro part occurs
  cases occurs with
  | self => exact ⟨fun _ => known, fun isEnum => by simp [TypeExpr.instanceOf] at isEnum⟩
  | argument isArgument _ => simp [TypeExpr.instanceOf] at isArgument

theorem refersTo_memberOf {name : String} (known : enums name) :
    RefersTo classes enums (.memberOf name) := by
  intro part occurs
  cases occurs with
  | self => exact ⟨fun isClass => by simp [TypeExpr.memberOf] at isClass, fun _ => known⟩
  | argument isArgument _ => simp [TypeExpr.memberOf] at isArgument

theorem RefersTo.optional (refers : RefersTo classes enums type) :
    RefersTo classes enums type.optional := by
  rw [TypeExpr.optional]
  split
  · exact refers
  · exact refers
  · exact refersTo_of_arguments (by simp) (by simp) (by simpa using refers)

theorem refersTo_anyOf {variants : List TypeExpr}
    (refer : ∀ variant ∈ variants, RefersTo classes enums variant) :
    RefersTo classes enums (anyOf variants) := by
  unfold anyOf
  split
  · exact refersTo_of_arguments (by simp [TypeExpr.primitive]) (by simp [TypeExpr.primitive])
      (by simp [TypeExpr.primitive])
  · exact refer _ (by simp)
  · exact refersTo_of_arguments (by simp [TypeExpr.unionOf]) (by simp [TypeExpr.unionOf]) refer

theorem refersTo_unionType {variants : List TypeExpr}
    (refer : ∀ variant ∈ variants, RefersTo classes enums variant) :
    RefersTo classes enums (unionType variants) := by
  have joined : RefersTo classes enums
      (anyOf (TypeExpr.distinct (variants.filter fun type => !type.isNull))) := by
    apply refersTo_anyOf
    intro variant occurs
    exact refer variant (List.mem_of_mem_filter (TypeExpr.mem_of_mem_distinct occurs))
  rw [unionType]
  split
  · exact joined.optional
  · exact joined

end RefersTo

/-! ## What may be referred to -/

/-- A class is built or will be built because it is declared. -/
def KnownClass (declared : Table Key Declaration) (state : State) (name : String) : Prop :=
  (∃ declaration ∈ Table.values declared,
    declaration.kind = .classDefinition ∧ declaration.name = name) ∨
  ∃ definition ∈ state.classes, definition.name = name

/-- An enum is built or will be built because it is declared. -/
def KnownEnum (declared : Table Key Declaration) (state : State) (name : String) : Prop :=
  (∃ declaration ∈ Table.values declared,
    declaration.kind = .enumDefinition ∧ declaration.name = name) ∨
  ∃ definition ∈ state.enums, definition.name = name

/-- A class refers to nothing but given classes and enums. -/
structure ClosedClass (classes enums : String → Prop) (definition : ClassDefinition) : Prop where
  fields : ∀ field ∈ definition.fields, RefersTo classes enums field.type
  base : ∀ name ∈ definition.base, classes name

theorem ClosedClass.mono {classes enums moreClasses moreEnums : String → Prop}
    {definition : ClassDefinition} (closed : ClosedClass classes enums definition)
    (classesMono : ∀ name, classes name → moreClasses name)
    (enumsMono : ∀ name, enums name → moreEnums name) :
    ClosedClass moreClasses moreEnums definition where
  fields field occurs := (closed.fields field occurs).mono classesMono enumsMono
  base name isBase := classesMono name (closed.base name isBase)

/-- A state grows by classes that refer to nothing but what is known in the end. -/
structure Refers (declared : Table Key Declaration) (before after : State) : Prop where
  declarations_eq : after.declarations = before.declarations
  length_le : before.classes.length ≤ after.classes.length
  classes_subset : before.classes ⊆ after.classes
  enums_subset : before.enums ⊆ after.enums
  closed : ∀ definition ∈ after.classes, definition ∈ before.classes ∨
    ClosedClass (KnownClass declared after) (KnownEnum declared after) definition

section Refers

variable {declared : Table Key Declaration} {before middle after : State}

theorem Refers.knownClass (refers : Refers declared before after) (name : String)
    (known : KnownClass declared before name) : KnownClass declared after name :=
  known.imp_right fun ⟨definition, built, same⟩ => ⟨definition, refers.classes_subset built, same⟩

theorem Refers.knownEnum (refers : Refers declared before after) (name : String)
    (known : KnownEnum declared before name) : KnownEnum declared after name :=
  known.imp_right fun ⟨definition, built, same⟩ => ⟨definition, refers.enums_subset built, same⟩

theorem Refers.refl (state : State) : Refers declared state state :=
  ⟨rfl, Nat.le_refl _, List.Subset.refl _, List.Subset.refl _, fun _ => Or.inl⟩

theorem Refers.trans (refers : Refers declared before middle)
    (refersOn : Refers declared middle after) : Refers declared before after where
  declarations_eq := refersOn.declarations_eq.trans refers.declarations_eq
  length_le := Nat.le_trans refers.length_le refersOn.length_le
  classes_subset := List.Subset.trans refers.classes_subset refersOn.classes_subset
  enums_subset := List.Subset.trans refers.enums_subset refersOn.enums_subset
  closed definition occurs := by
    rcases refersOn.closed definition occurs with inMiddle | closed
    · refine (refers.closed definition inMiddle).imp_right fun closed => ?_
      exact closed.mono refersOn.knownClass refersOn.knownEnum
    · exact Or.inr closed

/-- Taking a name builds nothing. -/
theorem refers_reserve (state : State) (name source : String) :
    Refers declared state (state.reserve name source) :=
  ⟨rfl, Nat.le_refl _, List.Subset.refl _, List.Subset.refl _, fun _ => Or.inl⟩

theorem refers_withEnum (state : State) (definition : EnumDefinition) :
    Refers declared state (state.withEnum definition) where
  declarations_eq := rfl
  length_le := Nat.le_refl _
  classes_subset := List.Subset.refl _
  enums_subset := List.subset_append_left _ _
  closed _ := Or.inl

theorem mem_withClass {state : State} {place : Nat} {definition other : ClassDefinition}
    (inside : place ≤ state.classes.length) :
    other ∈ (state.withClass place definition).classes ↔
      other = definition ∨ other ∈ state.classes :=
  List.mem_insertIdx inside

theorem refers_withClass {state : State} {place : Nat} {definition : ClassDefinition}
    (inside : place ≤ state.classes.length)
    (closed : ClosedClass (KnownClass declared state) (KnownEnum declared state) definition) :
    Refers declared state (state.withClass place definition) where
  declarations_eq := rfl
  length_le := by simp [State.withClass, List.length_insertIdx, inside]
  classes_subset _ occurs := (mem_withClass inside).mpr (Or.inr occurs)
  enums_subset := List.Subset.refl _
  closed other occurs := by
    rcases (mem_withClass inside).mp occurs with rfl | old
    · refine Or.inr (closed.mono (fun name known => ?_) fun _ => id)
      rcases known with isDeclared | ⟨built, isBuilt, same⟩
      · exact Or.inl isDeclared
      · exact Or.inr ⟨built, (mem_withClass inside).mpr (Or.inr isBuilt), same⟩
    · exact Or.inl old

end Refers

/-- Translating refers to nothing but what is known. -/
def referring (declared : Table Key Declaration) : Discipline declared where
  Owns _ := True
  Grows := Refers declared
  Admits state := RefersTo (KnownClass declared state) (KnownEnum declared state)
  declarations_eq := Refers.declarations_eq
  length_le := Refers.length_le
  refl := Refers.refl
  trans := Refers.trans
  keeps grows admits := admits.mono grows.knownClass grows.knownEnum
  anything := refersTo_of_arguments (by simp [TypeExpr.anything]) (by simp [TypeExpr.anything])
    (by simp [TypeExpr.anything])
  primitive _ := refersTo_of_arguments (by simp [TypeExpr.primitive])
    (by simp [TypeExpr.primitive]) (by simp [TypeExpr.primitive])
  literal := refersTo_of_arguments (by simp [TypeExpr.literal]) (by simp [TypeExpr.literal])
    (by simp [TypeExpr.literal])
  optional := RefersTo.optional
  listOf admits := refersTo_of_arguments (by simp [TypeExpr.listOf]) (by simp [TypeExpr.listOf])
    (by simpa [TypeExpr.listOf] using admits)
  tupleOf admits := refersTo_of_arguments (by simp [TypeExpr.tupleOf])
    (by simp [TypeExpr.tupleOf]) (by simpa [TypeExpr.tupleOf] using admits)
  unionType := refersTo_unionType
  base admits isClass := refersTo_instanceOf ((admits _ .self).1 isClass)
  declaredClass isDeclared isClass :=
    refersTo_instanceOf (Or.inl ⟨_, isDeclared, isClass, rfl⟩)
  declaredEnum isDeclared isEnum :=
    refersTo_memberOf (Or.inl ⟨_, isDeclared, isEnum, rfl⟩)
  declaredOwner _ := trivial
  freshOwner _ := trivial
  inlineEnum := by
    intro state owner property definition _ _ _
    refine ⟨(refers_reserve state _ _).trans (refers_withEnum _ definition), ?_⟩
    exact refersTo_memberOf (Or.inr ⟨definition, by simp [State.withEnum], rfl⟩)
  inlineClass := by
    intro state after owner property definition _ _ _ grows base fields
    have inside : state.classes.length ≤ after.classes.length := grows.length_le
    have closed : ClosedClass (KnownClass declared after) (KnownEnum declared after) definition :=
      ⟨fields, fun name isBase => (base name isBase _ .self).1 rfl⟩
    refine ⟨((refers_reserve state _ _).trans grows).trans (refers_withClass inside closed), ?_⟩
    exact refersTo_instanceOf (Or.inr ⟨definition, (mem_withClass inside).mpr (Or.inl rfl), rfl⟩)

/-! ## Building all declarations -/

/-- While the declarations are built one after the other, classes refer to what is known, and what
is declared and no longer pending is built. -/
structure Resolving (declared : Table Key Declaration) (pending : List Declaration)
    (state : State) : Prop where
  declarations_eq : state.declarations = declared
  closed : ∀ definition ∈ state.classes,
    ClosedClass (KnownClass declared state) (KnownEnum declared state) definition
  classes : ∀ declaration ∈ Table.values declared, declaration.kind = .classDefinition →
    declaration ∈ pending ∨ ∃ definition ∈ state.classes, definition.name = declaration.name
  enums : ∀ declaration ∈ Table.values declared, declaration.kind = .enumDefinition →
    declaration ∈ pending ∨ ∃ definition ∈ state.enums, definition.name = declaration.name

section Resolving

variable {declared : Table Key Declaration} {declaration : Declaration}
  {pending : List Declaration}

theorem Declared.resolving {state : State} (declared : Declared state) :
    Resolving state.declarations (Table.values state.declarations) state where
  declarations_eq := rfl
  closed := by simp [declared.classes_eq]
  classes _ isDeclared _ := Or.inl isDeclared
  enums _ isDeclared _ := Or.inl isDeclared

theorem Resolving.refers {before after : State} (resolving : Resolving declared pending before)
    (refers : Refers declared before after) : Resolving declared pending after where
  declarations_eq := refers.declarations_eq.trans resolving.declarations_eq
  closed definition occurs := by
    rcases refers.closed definition occurs with old | closed
    · exact (resolving.closed definition old).mono refers.knownClass refers.knownEnum
    · exact closed
  classes declaration isDeclared isClass :=
    (resolving.classes declaration isDeclared isClass).imp_right
      fun ⟨definition, built, same⟩ => ⟨definition, refers.classes_subset built, same⟩
  enums declaration isDeclared isEnum :=
    (resolving.enums declaration isDeclared isEnum).imp_right
      fun ⟨definition, built, same⟩ => ⟨definition, refers.enums_subset built, same⟩

/-- The next declaration is done with if what it is generated as is there. -/
theorem Resolving.next {state : State}
    (resolving : Resolving declared (declaration :: pending) state)
    (isBuiltClass : declaration.kind = .classDefinition →
      ∃ definition ∈ state.classes, definition.name = declaration.name)
    (isBuiltEnum : declaration.kind = .enumDefinition →
      ∃ definition ∈ state.enums, definition.name = declaration.name) :
    Resolving declared pending state where
  declarations_eq := resolving.declarations_eq
  closed := resolving.closed
  classes other isDeclared isClass := by
    rcases resolving.classes other isDeclared isClass with isPending | built
    · rcases List.mem_cons.mp isPending with rfl | later
      · exact Or.inr (isBuiltClass isClass)
      · exact Or.inl later
    · exact Or.inr built
  enums other isDeclared isEnum := by
    rcases resolving.enums other isDeclared isEnum with isPending | built
    · rcases List.mem_cons.mp isPending with rfl | later
      · exact Or.inr (isBuiltEnum isEnum)
      · exact Or.inl later
    · exact Or.inr built

theorem ensures_resolving {setting : Setting} {depth : Nat} {state : State}
    (isDeclared : declaration ∈ Table.values declared)
    (resolving : Resolving declared (declaration :: pending) state) :
    Ensures (buildDeclaration setting depth declaration) state
      fun _ after => Resolving declared pending after := by
  refine (referring declared).ensures_buildDeclaration isDeclared resolving.declarations_eq
    ?ofClass ?ofEnum ?ofAlias
  case ofClass =>
    intro after definition isClass name _ refers base fields
    have inside : state.classes.length ≤ after.classes.length := refers.length_le
    have closed : ClosedClass (KnownClass declared after) (KnownEnum declared after) definition :=
      ⟨fields, fun name isBase => (base name isBase _ .self).1 rfl⟩
    have refersOn := refers.trans (refers_withClass inside closed)
    refine (resolving.refers refersOn).next (fun _ => ?_) fun isEnum => ?_
    · exact ⟨definition, (mem_withClass inside).mpr (Or.inl rfl), name⟩
    · simp [isClass] at isEnum
  case ofEnum =>
    intro definition isEnum name _
    have refersOn := resolving.refers (refers_withEnum state definition)
    refine refersOn.next (fun isClass => ?_) fun _ => ?_
    · simp [isEnum] at isClass
    · exact ⟨definition, by simp [State.withEnum], name⟩
  case ofAlias =>
    intro isAlias
    exact resolving.next (by simp [isAlias]) (by simp [isAlias])

end Resolving

/-! ## The references in the end -/

/-- Every class refers to nothing but the classes and enums of the state. -/
def Resolved (state : State) : Prop :=
  ∀ definition ∈ state.classes,
    ClosedClass (fun name => ∃ target ∈ state.classes, target.name = name)
      (fun name => ∃ target ∈ state.enums, target.name = name) definition

theorem Resolving.resolved {declared : Table Key Declaration} {state : State}
    (resolving : Resolving declared [] state) : Resolved state := by
  intro definition occurs
  refine (resolving.closed definition occurs).mono (fun name known => ?_) fun name known => ?_
  · rcases known with ⟨declaration, isDeclared, isClass, rfl⟩ | built
    · simpa using resolving.classes declaration isDeclared isClass
    · exact built
  · rcases known with ⟨declaration, isDeclared, isEnum, rfl⟩ | built
    · simpa using resolving.enums declaration isDeclared isEnum
    · exact built

/-- Cutting bases leaves no reference without its class. -/
theorem Resolved.cut {state : State} (resolved : Resolved state) {cut : List ClassDefinition}
    (areCut : List.Forall₂ CutFrom state.classes cut) : Resolved { state with classes := cut } := by
  intro definition occurs
  obtain ⟨original, isOriginal, isCut⟩ := exists_of_mem_cut areCut occurs
  have named (name : String) (known : ∃ target ∈ state.classes, target.name = name) :
      ∃ target ∈ cut, target.name = name := by
    rw [← List.mem_map] at known ⊢
    rwa [map_name_of_cutFrom areCut]
  have closed := (resolved original isOriginal).mono named fun _ => id
  refine ⟨?_, ?_⟩
  · rw [isCut.fields_eq]
    exact closed.fields
  · exact fun name isBase => closed.base name (isCut.base_eq_of_some isBase)

theorem ensures_resolved (setting : Setting) :
    Ensures (analysis setting) {} fun _ after => Resolved after := by
  refine ensures_analysis Resolving Declared.resolving ?keeps ?ends
  case keeps => exact fun _ isDeclared resolving => ensures_resolving isDeclared resolving
  case ends => exact fun resolving areCut => resolving.resolved.cut areCut

/-- In what an analysis yields, every reference to a class in a type of a field leads to a class,
every reference to an enum leads to an enum, and every base is a class. -/
theorem references_resolve_of_analyze {library : Library} {request : Request}
    {channel channel' : Channel} {result : State}
    (returned : (analyze library request).onChannel channel = (.ok result, channel')) :
    ∀ definition ∈ result.classes,
      (∀ field ∈ definition.fields, ∀ part : TypeExpr, part.Occurs field.type →
        (part.kind = .classRef → ∃ target ∈ result.classes, target.name = part.name) ∧
          (part.kind = .enumRef → ∃ target ∈ result.enums, target.name = part.name)) ∧
        ∀ name, definition.base = some name →
          ∃ target ∈ result.classes, target.name = name := by
  intro definition occurs
  have closed := of_analyze_eq_ok (ensures_resolved _) returned definition occurs
  exact ⟨closed.fields, closed.base⟩

/-- An owner whose pets are an array behind an alias, and a keeper derived from the owner. -/
def ownerAndKeeper : Library where
  documents :=
    [{ systemId := "file:///owner.json"
       rootName := "owner"
       root := some (.object
         { info := { pointer := "#" }
           properties :=
             [{ info := { pointer := "#/properties/pets" }
                name := "pets"
                type := .ref
                  { info := { pointer := "#/properties/pets" }
                    target := .text "#/definitions/pets" }
                required := true
                default? := none }] })
       definitions :=
         [{ name := "pets"
            pointer := "#/definitions/pets"
            body := .array { pointer := "#/definitions/pets" }
              (some (.enum { pointer := "#/definitions/pets/items" } [.text "cat"] "string"
                (.object []))) .null },
          { name := "keeper"
            pointer := "#/definitions/keeper"
            body := .allOf { pointer := "#/definitions/keeper" }
              (some { info := { pointer := "#/definitions/keeper" }, target := .text "#" })
              none }]
       package := .null }]

theorem references_resolve_ownerAndKeeper : ∃ result channel,
    (analyze ownerAndKeeper {}).onChannel {} = (.ok result, channel) ∧
      result.classes.map (fun definition => (definition.name, definition.base)) =
        [("Owner", none), ("Keeper", some "Owner")] ∧
      ∀ definition ∈ result.classes,
        (∀ field ∈ definition.fields, ∀ part : TypeExpr, part.Occurs field.type →
          (part.kind = .classRef → ∃ target ∈ result.classes, target.name = part.name) ∧
            (part.kind = .enumRef → ∃ target ∈ result.enums, target.name = part.name)) ∧
          ∀ name, definition.base = some name →
            ∃ target ∈ result.classes, target.name = name := by
  have classes : ((analyze ownerAndKeeper {}).onChannel {}).1.toOption.map
      (fun state => state.classes.map fun definition => (definition.name, definition.base)) =
        some [("Owner", none), ("Keeper", some "Owner")] := by
    decide +kernel
  rcases returned : (analyze ownerAndKeeper {}).onChannel {} with ⟨stop | result, channel⟩
  · rw [returned] at classes
    contradiction
  · rw [returned] at classes
    exact ⟨result, channel, rfl, by injection classes, references_resolve_of_analyze returned⟩

end Analysis

end Typeloom
