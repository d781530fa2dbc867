import Typeloom.Proofs.Model.DeclaredState
import Typeloom.Proofs.Model.Lineage
import Typeloom.Proofs.Model.References

/-!
# The classes of named objects

If nothing is left out and no error is reported, every root or definition that describes an object
has a class.  The fields of the class are the properties that are its own, and the class has a
base exactly if the node refers to one, which then is the class of the object that the reference
leads to.  No class inherits from itself.
-/

namespace Typeloom

namespace Node

/-- The properties that an object does not inherit. -/
def ownProperties : Node → List (Property Node)
  | .object body => body.properties
  | .allOf _ _ (some body) => body.properties
  | _ => []

/-- The reference of a derived object to its base. -/
def base? : Node → Option Reference
  | .allOf _ base _ => base
  | _ => none

end Node

namespace Analysis

/-- Whether a name is that of the class which a reference from a document leads to: the reference
leads somewhere, and if that is an object, the name is derived from the name of the object. -/
def NamesBase (library : Library) (document : Nat) (reference : Reference) (name : String) : Prop :=
  ∃ target, library.resolve document reference = .ok (some target) ∧
    (target.node.isObject = true → ∃ other ∈ library.namedNodes,
      other.address = target.address ∧ other.node = target.node ∧
        name = Naming.pascalCase other.name)

/-- Whether a class has the base that a root or definition asks for. -/
def MatchesBase (library : Library) (named : NamedNode) (base : Option String) : Prop :=
  match named.node.base? with
  | none => base = none
  | some reference => ∃ name, base = some name ∧
      NamesBase library named.address.document reference name

/-- Whether a class is the class of a root or definition. -/
structure Represents (library : Library) (named : NamedNode) (definition : ClassDefinition) :
    Prop where
  name_eq : definition.name = Naming.pascalCase named.name
  base : MatchesBase library named definition.base
  fields_eq : definition.fields.map FieldDefinition.name =
    named.node.ownProperties.map Property.name

/-! ## Bases and fields -/

section Building

variable {setting : Setting} {follow : List Key → Declaration → Step TypeExpr}
  {resolving : List Key} {declared : Table Key Declaration} {state : State}

theorem clean_translateReference
    (areDeclared : AreDeclared setting.request setting.library.namedNodes declared)
    (same : state.declarations = declared) (site : Site) (reference : Reference) :
    EnsuresClean (translateReference setting follow resolving site reference) state
      fun type _ => type.kind = .classRef →
        NamesBase setting.library site.document reference type.name := by
  refine clean_orFault fun target? resolves => ?_
  cases target? with
  | none => exact clean_bind (steady_reportAt ..) (fun _ => steady_pure _) clean_error
  | some target =>
      refine clean_get ?_
      obtain ⟨other, occurs, atTarget, ofDocument, ofKey, ofNode⟩ :=
        Library.exists_namedNode_of_resolve resolves
      have isKey : keyOf other = (target.document.systemId, target.key) := by
        rw [keyOf, ofDocument, ofKey]
      have found := (areDeclared other occurs).2
      rw [isKey] at found
      rw [same, found]
      have isBase (name : String)
          (isObject : target.node.isObject = true → name = Naming.pascalCase other.name) :
          NamesBase setting.library site.document reference name :=
        ⟨target, resolves, fun object => ⟨other, occurs, atTarget, ofNode, isObject object⟩⟩
      have kind_eq : (declarationOf setting.request other).kind = .alias →
          target.node.isObject = false := by
        rw [← ofNode]
        cases isNode : other.node <;>
          simp [Declaration.kind, declarationOf, isNode, Node.isObject]
      dsimp only
      split
      · exact (ensures_pure fun _ => isBase _ fun _ => rfl).clean
      · refine (ensures_pure fun isClass => ?_).clean
        cases isClass
      · rename_i isAlias
        refine Ensures.clean fun _ type _ _ _ _ => isBase type.name fun object => ?_
        simp [kind_eq isAlias] at object

theorem ensures_translateProperties (nothingIgnored : setting.request.ignoredFields = [])
    (site : Site) (properties : List (Property Node)) :
    Ensures (translateProperties setting follow resolving site properties) state
      fun fields _ => fields.map FieldDefinition.name = properties.map Property.name := by
  induction properties generalizing state with
  | nil =>
      rw [translateProperties]
      exact ensures_pure rfl
  | cons property properties ih =>
      have kept : ¬ isListed property.name setting.request.ignoredFields = true := by
        simp [nothingIgnored, isListed]
      rw [translateProperties, if_neg kept]
      refine ensures_bind fun _ type middle _ _ => ?_
      refine ensures_bind (ih.mono fun fields after areNamed => ensures_pure ?_)
      rw [List.map_cons, List.map_cons, areNamed]
      rfl

theorem clean_translateBase
    (areDeclared : AreDeclared setting.request setting.library.namedNodes declared)
    (same : state.declarations = declared) (site : Site) (pointer : String)
    (reference : Reference)
    (aliases : ∀ resolving declaration, Consists IsRoutine (follow resolving declaration)) :
    EnsuresClean (translateBase setting follow resolving site pointer (some reference)) state
      fun base _ => ∃ name, base = some name ∧
        NamesBase setting.library site.document reference name := by
  refine clean_bind (consists_translateReference aliases _ reference).steady (fun type => ?steady)
    ((clean_translateReference areDeclared same _ reference).mono fun type after isBase => ?_)
  case steady =>
    split
    · exact steady_pure _
    · exact steady_bind (steady_reportAt ..) fun _ => steady_pure none
  split
  · rename_i isClass
    exact (ensures_pure ⟨type.name, rfl, isBase isClass⟩).clean
  · exact clean_bind (steady_reportAt ..) (fun _ => steady_pure none) clean_error

/-- The base of a root or definition is found as long as no error is reported. -/
theorem clean_matchesBase {named : NamedNode}
    (areDeclared : AreDeclared setting.request setting.library.namedNodes declared)
    (same : state.declarations = declared) (site : Site)
    (inDocument : site.document = named.address.document) (pointer : String)
    (aliases : ∀ resolving declaration, Consists IsRoutine (follow resolving declaration)) :
    EnsuresClean (translateBase setting follow resolving site pointer named.node.base?) state
      fun base _ => MatchesBase setting.library named base := by
  unfold MatchesBase
  cases named.node.base? with
  | none =>
      refine Ensures.clean (ensures_pure ?_)
      rfl
  | some reference =>
      exact inDocument ▸ clean_translateBase areDeclared same site pointer reference aliases

/-- Whether a step yields fields with given names. -/
structure YieldsFields (declared : Table Key Declaration) (step : Step (List FieldDefinition))
    (names : List String) : Prop where
  steady : Steady step
  keeps : (referring declared).KeepsFields step
  names_eq : ∀ state, Ensures step state fun fields _ => fields.map FieldDefinition.name = names

theorem yieldsFields_nil : YieldsFields declared (pure []) [] where
  steady := steady_pure []
  keeps state _ := ensures_pure ⟨(referring declared).refl state, by simp⟩
  names_eq _ := ensures_pure rfl

theorem yieldsFields_translateProperties (nothingIgnored : setting.request.ignoredFields = [])
    (depth : Nat) (site : Site) (properties : List (Property Node)) :
    YieldsFields declared
      (translateProperties setting (followAlias setting depth) [] site properties)
      (properties.map Property.name) where
  steady := ((consists_translation (consists_followAlias setting depth)).2.2 site properties).steady
  keeps := ((referring declared).keeps_translation
    ((referring declared).keepsAliases_followAlias depth)).2.2 site properties trivial
  names_eq _ := ensures_translateProperties nothingIgnored site properties

/-- Building a class adds a class with the base and the fields that are found on the way. -/
theorem clean_buildClass_mem {name systemId : String} {package : Json} {info : NodeInfo}
    {base : Step (Option String)} {fields : Step (List FieldDefinition)} {names : List String}
    {isBase : Option String → Prop} (same : state.declarations = declared)
    (steady : Steady base) (keeps : (referring declared).KeepsBase base)
    (finds : EnsuresClean base state fun base _ => isBase base)
    (yields : YieldsFields declared fields names) :
    EnsuresClean (buildClass name systemId package info base fields) state fun _ after =>
      ∃ definition ∈ after.classes, definition.name = name ∧ isBase definition.base ∧
        definition.fields.map FieldDefinition.name = names := by
  refine clean_buildClass steady yields.steady ?_
  refine (finds.and (keeps same).clean).mono ?_
  rintro base middle ⟨isBase, grows, -⟩
  have stillSame : middle.declarations = declared := grows.declarations_eq.trans same
  refine ((yields.names_eq middle).clean.and (yields.keeps stillSame).clean).mono ?_
  rintro fields after ⟨areNamed, growsOn, -⟩
  have inside := Nat.le_trans grows.length_le growsOn.length_le
  exact ⟨_, (mem_withClass inside).mpr (Or.inl rfl), rfl, isBase, areNamed⟩

/-- Building what a root or definition is declared as adds its class. -/
theorem clean_buildDeclaration {depth : Nat} {named : NamedNode}
    (nothingIgnored : setting.request.ignoredFields = [])
    (areDeclared : AreDeclared setting.request setting.library.namedNodes declared)
    (same : state.declarations = declared) (isObject : named.node.isObject = true) :
    EnsuresClean (buildDeclaration setting depth (declarationOf setting.request named)) state
      fun _ after => ∃ definition ∈ after.classes,
        Represents setting.library named definition := by
  have aliases := consists_followAlias setting depth
  have keepsAliases : (referring declared).KeepsAliases (followAlias setting depth) :=
    (referring declared).keepsAliases_followAlias depth
  have building {info : NodeInfo} (pointer : String) {fields : Step (List FieldDefinition)}
      (yields : YieldsFields declared fields (named.node.ownProperties.map Property.name)) :
      EnsuresClean (buildClass (Naming.pascalCase named.name) named.document.systemId
        (packageOf setting.request named.document) info
        (translateBase setting (followAlias setting depth) []
          ((declarationOf setting.request named).site setting) pointer named.node.base?) fields)
        state fun _ after => ∃ definition ∈ after.classes,
          Represents setting.library named definition := by
    refine (clean_buildClass_mem same (consists_translateBase aliases ..).steady
      ((referring declared).keeps_base keepsAliases ..)
      (clean_matchesBase areDeclared same _ rfl pointer aliases) yields).mono ?_
    rintro _ after ⟨definition, occurs, hasName, hasBase, hasFields⟩
    exact ⟨definition, occurs, hasName, hasBase, hasFields⟩
  refine clean_poll ?_
  cases isNode : named.node with
  | object body =>
      rw [isNode] at building
      simp only [declarationOf, isNode]
      exact building ""
        (yieldsFields_translateProperties nothingIgnored depth _ body.properties)
  | allOf info base extension =>
      rw [isNode] at building
      simp only [declarationOf, isNode]
      refine building info.pointer ?_
      cases extension with
      | none => exact yieldsFields_nil
      | some body =>
          exact yieldsFields_translateProperties nothingIgnored depth _ body.properties
  | _ => simp [isNode, Node.isObject] at isObject

/-- Building a declaration keeps the declarations and the classes that have been found. -/
theorem ensures_grows {depth : Nat} {declaration : Declaration}
    (isDeclared : declaration ∈ Table.values declared) (same : state.declarations = declared) :
    Ensures (buildDeclaration setting depth declaration) state fun _ after =>
      after.declarations = declared ∧ state.classes ⊆ after.classes := by
  refine (referring declared).ensures_buildDeclaration isDeclared same ?_ ?_ ?_
  · intro after definition _ _ _ grows _ _
    refine ⟨grows.declarations_eq.trans same, fun other occurs => ?_⟩
    exact (mem_withClass grows.length_le).mpr (Or.inr (grows.classes_subset occurs))
  · exact fun _ _ _ _ => ⟨same, List.Subset.refl _⟩
  · exact fun _ => ⟨same, List.Subset.refl _⟩

/-- Whether every root or definition that describes an object has its class already or is declared
among what is still to be built. -/
def Covers (setting : Setting) (pending : List Declaration) (state : State) : Prop :=
  ∀ named ∈ setting.library.namedNodes, named.node.isObject = true →
    declarationOf setting.request named ∈ pending ∨
      ∃ definition ∈ state.classes, Represents setting.library named definition

/-- Building a declaration leaves the rest of them to be built. -/
theorem clean_covers {depth : Nat} {declaration : Declaration} {rest : List Declaration}
    (nothingIgnored : setting.request.ignoredFields = [])
    (areDeclared : AreDeclared setting.request setting.library.namedNodes declared)
    (isDeclared : declaration ∈ Table.values declared) (same : state.declarations = declared)
    (covers : Covers setting (declaration :: rest) state) :
    EnsuresClean (buildDeclaration setting depth declaration) state fun _ after =>
      after.declarations = declared ∧ Covers setting rest after := by
  intro channel value after channel' ends noError
  obtain ⟨stillSame, keeps⟩ := ensures_grows isDeclared same ends
  refine ⟨stillSame, fun named occurs isObject => ?_⟩
  rcases covers named occurs isObject with pending | ⟨definition, found, represents⟩
  · rcases List.mem_cons.mp pending with rfl | later
    · exact Or.inr (clean_buildDeclaration nothingIgnored areDeclared same isObject ends noError)
    · exact Or.inl later
  · exact Or.inr ⟨definition, keeps found, represents⟩

end Building

/-! ## The whole analysis -/

/-- If nothing is left out and no error is reported, every root or definition that describes an
object has a class in the end, and no class inherits from itself. -/
theorem clean_analysis {setting : Setting} (noClassIgnored : setting.request.ignoredClasses = [])
    (noFieldIgnored : setting.request.ignoredFields = [])
    (distinct : setting.library.DistinctNames) :
    EnsuresClean (analysis setting) {} fun _ after =>
      Covers setting [] after ∧
        ∀ definition ∈ after.classes, ¬ InheritsFromItself after.classes definition := by
  have steadyDeclare (declarations : List Declaration) (depth : Nat) :
      Steady (declarations.forM (buildDeclaration setting depth)) :=
    steady_forM fun _ => (consists_buildDeclaration ..).steady
  have steadyCut : Steady (do
      let classes ← cutCycles 0 (← get).classes
      modify fun state => { state with classes }) :=
    steady_bind steady_get fun _ => steady_bind (steady_cutCycles ..) fun _ => steady_modify _
  unfold analysis
  rw [declareAll_eq]
  refine clean_bind (steady_forM fun named => (consists_declare ..).steady)
    (fun _ => steady_bind steady_get fun _ => steady_bind (steadyDeclare ..) fun _ => steadyCut)
    ((clean_declareAll noClassIgnored distinct).mono fun _ declaredState areDeclared => ?_)
  refine clean_get (clean_bind (steadyDeclare ..) (fun _ => steadyCut) ?_)
  have begins : Covers setting (Table.values declaredState.declarations) declaredState :=
    fun named occurs _ => Or.inl (Table.mem_values_of_get? (areDeclared named occurs).2)
  refine (clean_forM
    (fun rest after => after.declarations = declaredState.declarations ∧ Covers setting rest after)
    (fun declaration => (consists_buildDeclaration ..).steady) ⟨rfl, begins⟩ fun isDeclared before =>
      clean_covers noFieldIgnored areDeclared isDeclared before.1 before.2).mono ?_
  rintro _ built ⟨-, covers⟩
  refine clean_get (clean_bind (steady_cutCycles ..) (fun _ => steady_modify _) ?_)
  refine (clean_cutCycles built.classes built).mono ?_
  rintro cut _ ⟨rfl, rfl, acyclic⟩
  exact (ensures_modify ⟨covers, acyclic⟩).clean

end Analysis

end Typeloom
