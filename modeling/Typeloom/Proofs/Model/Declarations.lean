import Typeloom.Proofs.Model.Clean
import Typeloom.Proofs.Model.Inheritance
import Typeloom.Proofs.Naming.Words
import Typeloom.Proofs.Schema.Loaded
import Typeloom.Proofs.Schema.Targets

/-!
# Declaring roots and definitions

The roots and definitions of a library are declared one after the other, each under its key.  Two of
them have the same key only if one is a root and the other one a definition with the name of the
root key, and no class name can be derived from that name.

An analysis declares everything, then builds the declarations one after the other, and then cuts
the bases of the classes that inherit from themselves.  What holds of its result is shown along
these stages.
-/

namespace Typeloom

/-!
## The declarations before anything is built

When all roots and definitions are declared, every declaration has a name, and the names of those
that become classes or enums are taken for them and for nothing else.
-/

namespace Analysis

/-- Two declarations that both become a class or an enum have different names. -/
def NamesDiffer (left right : Declaration) : Prop :=
  left.kind ≠ .alias → right.kind ≠ .alias → left.name ≠ right.name

theorem NamesDiffer.symm {left right : Declaration} (differ : NamesDiffer left right) :
    NamesDiffer right left :=
  fun rightBuilds leftBuilds same => differ leftBuilds rightBuilds same.symm

/-- A state in which there are only declarations. -/
structure Declared (state : State) : Prop where
  classes_eq : state.classes = []
  enums_eq : state.enums = []
  isTypeName : ∀ declaration ∈ Table.values state.declarations,
    Naming.IsTypeName declaration.name
  names_eq : ∀ declaration ∈ Table.values state.declarations, declaration.kind ≠ .alias →
    Table.get? state.names declaration.name = some declaration.source
  differ : (Table.values state.declarations).Pairwise NamesDiffer

theorem Declared.name_ne_empty {state : State} (declared : Declared state) :
    ∀ declaration ∈ Table.values state.declarations, declaration.name ≠ "" :=
  fun declaration occurs => (declared.isTypeName declaration occurs).ne_empty

theorem declared_empty : Declared {} :=
  ⟨rfl, rfl, by simp [Table.values], by simp [Table.values], by simp [Table.values]⟩

/-- An alias may be declared without taking a name. -/
theorem Declared.setAlias {state : State} (declared : Declared state) {key : Key}
    {declaration : Declaration} (named : Naming.IsTypeName declaration.name)
    (isAlias : declaration.kind = .alias) :
    Declared { state with
      declarations := Table.set key declaration state.declarations } where
  classes_eq := declared.classes_eq
  enums_eq := declared.enums_eq
  isTypeName other occurs := by
    rcases Table.mem_values_set occurs with rfl | old
    · exact named
    · exact declared.isTypeName other old
  names_eq other occurs builds := by
    rcases Table.mem_values_set occurs with rfl | old
    · exact absurd isAlias builds
    · exact declared.names_eq other old builds
  differ := Table.pairwise_values_set NamesDiffer.symm declared.differ
    fun _ _ _ builds => absurd isAlias builds

/-- A class or an enum may be declared with a name that is still free. -/
theorem Declared.setNamed {state : State} (declared : Declared state) {key : Key}
    {declaration : Declaration} (named : Naming.IsTypeName declaration.name)
    (free : Table.get? state.names declaration.name = none) :
    Declared { state.reserve declaration.name declaration.source with
      declarations := Table.set key declaration state.declarations } := by
  have differs {other : Declaration} (old : other ∈ Table.values state.declarations)
      (builds : other.kind ≠ .alias) : other.name ≠ declaration.name := by
    intro same
    have taken := declared.names_eq other old builds
    rw [same, free] at taken
    simp at taken
  refine ⟨declared.classes_eq, declared.enums_eq, ?named, ?reserved, ?differ⟩
  case named =>
    intro other occurs
    rcases Table.mem_values_set occurs with rfl | old
    · exact named
    · exact declared.isTypeName other old
  case reserved =>
    intro other occurs builds
    rcases Table.mem_values_set occurs with rfl | old
    · exact Table.get?_set_same _ _ _
    · exact (Table.get?_set_other _ _ (differs old builds)).trans
        (declared.names_eq other old builds)
  case differ =>
    exact Table.pairwise_values_set NamesDiffer.symm declared.differ
      fun other old builds _ => differs old builds

theorem ensures_declare {request : Request} {document : Nat} {systemId key rawName : String}
    {node : Node} {package : Json} {state : State} (declared : Declared state) :
    Ensures (declare request document systemId key rawName node package) state
      fun _ after => Declared after := by
  unfold declare
  dsimp only
  split
  · exact ensures_pure declared
  · split
    · exact ensures_bind (ensures_reportAt (ensures_pure declared))
    · rename_i nonempty
      have named : Naming.IsTypeName (Naming.pascalCase rawName) :=
        Naming.isTypeName_pascalCase (by simpa using nonempty)
      refine ensures_bind (ensures_get ?_)
      split
      · rename_i builds
        split
        · exact ensures_bind (ensures_reportAt (ensures_pure declared))
        · rename_i free
          refine ensures_bind (ensures_modify (ensures_modify ?_))
          exact declared.setNamed named free
      · rename_i isAlias
        exact ensures_modify (declared.setAlias named (by simpa using isAlias))

theorem ensures_declareDocument {request : Request} {index : Nat} {document : Document}
    {state : State} (declared : Declared state) :
    Ensures (declareDocument request index document) state fun _ after => Declared after := by
  have definitions {state : State} (declared : Declared state) :
      Ensures (document.definitions.forM fun definition =>
        declare request index document.systemId definition.name definition.name
          definition.body (packageOf request document)) state fun _ after => Declared after :=
    ensures_forM (fun _ => Declared) declared fun _ declared => ensures_declare declared
  unfold declareDocument
  cases document.root with
  | none => exact definitions declared
  | some root =>
      exact ensures_bind ((ensures_declare declared).mono fun _ _ declared => definitions declared)

end Analysis

namespace Analysis

/-- The key under which a root or definition is declared. -/
def keyOf (named : NamedNode) : Key :=
  (named.document.systemId, named.key)

/-- As what a root or definition is declared. -/
def declarationOf (request : Request) (named : NamedNode) : Declaration where
  name := Naming.pascalCase named.name
  document := named.address.document
  systemId := named.document.systemId
  key := named.key
  node := named.node
  package := packageOf request named.document

def declareNamed (request : Request) (named : NamedNode) : Step Unit :=
  declare request named.address.document named.document.systemId named.key named.name named.node
    (packageOf request named.document)

/-! ## One step per root or definition -/

theorem forM_flatMap {α β : Type} (items : List α) (parts : α → List β) (step : β → Step PUnit) :
    (items.flatMap parts).forM step = items.forM fun item => (parts item).forM step := by
  induction items with
  | nil => rfl
  | cons item items ih =>
      simp only [List.forM_eq_forM] at ih ⊢
      rw [List.flatMap_cons, List.forM_append, List.forM_cons, ih]

theorem forM_zipIdx {α : Type} (items : List α) (step : α → Step PUnit) :
    items.zipIdx.forM (fun item => step item.1) = items.forM step := by
  have unnumbered : items.zipIdx.map Prod.fst = items := List.zipIdx_map_fst 0 items
  calc items.zipIdx.forM (fun item => step item.1)
    _ = (items.zipIdx.map Prod.fst).forM step := by
      simp only [List.forM_eq_forM, List.forM_map]
    _ = items.forM step := by rw [unnumbered]

theorem declareDocument_eq (request : Request) (index : Nat) (document : Document) :
    declareDocument request index document =
      (Library.namedNodesOf index document).forM (declareNamed request) := by
  unfold declareDocument Library.namedNodesOf
  dsimp only
  rw [← forM_zipIdx document.definitions]
  cases document.root <;> simp [List.forM_eq_forM, declareNamed, NamedNode.key]

theorem declareAll_eq (request : Request) (library : Library) :
    (library.documents.zipIdx.forM fun (document, index) =>
      declareDocument request index document) =
      library.namedNodes.forM (declareNamed request) := by
  simp only [Library.namedNodes, forM_flatMap, declareDocument_eq]

/-! ## Keys -/

theorem pascalCase_rootKey : Naming.pascalCase Library.rootKey = "" := by
  decide +kernel

theorem pairwise_zipIdx {α : Type} {items : List α} {relation : α → α → Prop}
    (related : items.Pairwise relation) :
    items.zipIdx.Pairwise fun left right => relation left.1 right.1 :=
  List.pairwise_map.mp (by rwa [List.zipIdx_map_fst])

theorem keys_differ_of_document {document : Document} (index : Nat)
    (distinct : (document.definitions.map Definition.name).Nodup) :
    (Library.namedNodesOf index document).Pairwise fun left right =>
      left.key = right.key →
        Naming.pascalCase left.name = "" ∨ Naming.pascalCase right.name = "" := by
  refine List.pairwise_append.mpr ⟨?roots, ?definitions, ?between⟩
  case roots => cases document.root <;> simp
  case definitions =>
    have differ := pairwise_zipIdx (List.pairwise_map.mp distinct)
    exact List.pairwise_map.mpr (differ.imp fun differ same => absurd same differ)
  case between =>
    intro root isRoot definition isDefinition same
    obtain ⟨node, -, rfl⟩ := List.mem_map.mp isRoot
    obtain ⟨⟨definition, number⟩, -, rfl⟩ := List.mem_map.mp isDefinition
    have isKey : definition.name = Library.rootKey := same.symm
    exact Or.inr ((congrArg Naming.pascalCase isKey).trans pascalCase_rootKey)

/-- Of two roots or definitions with the same key, there is one from whose name no class name can
be derived. -/
theorem keys_differ {library : Library} (distinct : library.DistinctNames) :
    library.namedNodes.Pairwise fun left right =>
      keyOf left = keyOf right →
        Naming.pascalCase left.name = "" ∨ Naming.pascalCase right.name = "" := by
  refine List.pairwise_flatMap.mpr ⟨?within, ?between⟩
  case within =>
    rintro ⟨document, index⟩ numbered
    have occurs := List.mem_of_getElem? (List.mem_zipIdx_iff_getElem?.mp numbered)
    exact (keys_differ_of_document index (distinct.definitions document occurs)).imp
      fun differ same => differ (Prod.mk.inj same).2
  case between =>
    have differ := pairwise_zipIdx (List.pairwise_map.mp distinct.systemIds)
    refine differ.imp fun {left right} differ first ofLeft second ofRight same => ?_
    have onLeft := (Library.of_mem_namedNodesOf ofLeft).1
    have onRight := (Library.of_mem_namedNodesOf ofRight).1
    exact absurd (onLeft ▸ onRight ▸ (Prod.mk.inj same).1) differ

/-! ## The stages of an analysis -/

/-- An invariant of the states between two declarations, which speaks of the declarations still to
be built, yields a property of the result of an analysis if it holds once everything is declared
and if the property outlasts that bases are cut. -/
theorem ensures_analysis_of_declares {setting : Setting} {post settled : State → Prop}
    (declares : Ensures (setting.library.namedNodes.forM (declareNamed setting.request)) {}
      fun _ state => settled state)
    (invariant : Table Key Declaration → List Declaration → State → Prop)
    (begins : ∀ {state}, Declared state → settled state →
      invariant state.declarations (Table.values state.declarations) state)
    (keeps : ∀ {state depth declaration rest} {before : State}, Declared state → settled state →
      declaration ∈ Table.values state.declarations →
      invariant state.declarations (declaration :: rest) before →
      Ensures (buildDeclaration setting depth declaration) before
        fun _ after => invariant state.declarations rest after)
    (ends : ∀ {declared cut} {state : State}, invariant declared [] state →
      List.Forall₂ CutFrom state.classes cut → post { state with classes := cut }) :
    Ensures (analysis setting) {} fun _ after => post after := by
  have declared : Ensures (setting.library.namedNodes.forM (declareNamed setting.request)) {}
      fun _ state => Declared state := by
    rw [← declareAll_eq]
    exact ensures_forM (fun _ => Declared) declared_empty fun _ declared =>
      ensures_declareDocument declared
  have declaring := declared.and declares
  rw [← declareAll_eq] at declaring
  refine ensures_bind (declaring.mono ?_)
  rintro _ state ⟨declared, settled⟩
  refine ensures_bind (ensures_get ?_)
  refine ensures_bind ((ensures_forM (invariant state.declarations) (begins declared settled)
    fun isDeclared => keeps declared settled isDeclared).mono ?_)
  intro _ built inTheEnd
  refine ensures_bind (ensures_get (ensures_bind ?_))
  refine (ensures_cutCycles 0 built.classes built).mono ?_
  rintro cut _ ⟨rfl, areCut⟩
  exact ensures_modify (ends inTheEnd areCut)

/-- The same for an invariant that needs nothing but that everything is declared. -/
theorem ensures_analysis {setting : Setting} {post : State → Prop}
    (invariant : Table Key Declaration → List Declaration → State → Prop)
    (begins : ∀ {state}, Declared state →
      invariant state.declarations (Table.values state.declarations) state)
    (keeps : ∀ {state depth declaration rest} {before : State}, Declared state →
      declaration ∈ Table.values state.declarations →
      invariant state.declarations (declaration :: rest) before →
      Ensures (buildDeclaration setting depth declaration) before
        fun _ after => invariant state.declarations rest after)
    (ends : ∀ {declared cut} {state : State}, invariant declared [] state →
      List.Forall₂ CutFrom state.classes cut → post { state with classes := cut }) :
    Ensures (analysis setting) {} fun _ after => post after := by
  have declares : Ensures (setting.library.namedNodes.forM (declareNamed setting.request)) {}
      fun _ _ => True := fun _ _ _ _ _ => trivial
  exact ensures_analysis_of_declares declares invariant (fun declared _ => begins declared)
    (fun declared _ => keeps declared) ends

end Analysis

end Typeloom
