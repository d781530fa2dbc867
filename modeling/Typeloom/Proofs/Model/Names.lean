import Typeloom.Proofs.Model.Declarations
import Typeloom.Proofs.Model.FreshNames
import Typeloom.Proofs.Model.Translation

/-!
# The names of classes and enums

Names are taken when something is declared and when something is found inside of a class.  A name
is never given back and never taken twice, so that no two classes or enums have the same one, and
the table of names leads from each name to the place of what bears it.
-/

namespace Typeloom

namespace Analysis

/-- The classes and enums of a state. -/
def State.definitions (state : State) : List TypeDefinition :=
  state.classes.map .ofClass ++ state.enums.map .ofEnum

theorem definitions_withEnum (state : State) (definition : EnumDefinition) :
    (state.withEnum definition).definitions.Perm (.ofEnum definition :: state.definitions) := by
  have appended : (state.withEnum definition).definitions =
      state.definitions ++ [.ofEnum definition] := by
    simp [State.withEnum, State.definitions]
  rw [appended]
  exact List.perm_append_singleton _ _

theorem definitions_withClass {state : State} {place : Nat} (definition : ClassDefinition)
    (inside : place ≤ state.classes.length) :
    (state.withClass place definition).definitions.Perm
      (.ofClass definition :: state.definitions) := by
  have inserted := (List.perm_insertIdx definition state.classes inside).map TypeDefinition.ofClass
  exact inserted.append_right (state.enums.map .ofEnum)

/-! ## States that grow by definitions with fresh names -/

/-- A state grows by definitions whose names were free before and are taken for them afterwards. -/
structure Adds (before after : State) (added : List TypeDefinition) : Prop where
  declarations_eq : after.declarations = before.declarations
  length_le : before.classes.length ≤ after.classes.length
  names_mono : ∀ {name source : String}, Table.get? before.names name = some source →
    Table.get? after.names name = some source
  perm : after.definitions.Perm (before.definitions ++ added)
  nodup : (added.map TypeDefinition.name).Nodup
  fresh : ∀ definition ∈ added, Table.get? before.names definition.name = none
  named : ∀ definition ∈ added, definition.name ≠ "" ∧
    Table.get? after.names definition.name = some definition.source

theorem Adds.refl (state : State) : Adds state state [] :=
  ⟨rfl, Nat.le_refl _, id, by simp, by simp, by simp, by simp⟩

theorem Adds.trans {before middle after : State} {first second : List TypeDefinition}
    (adds : Adds before middle first) (addsMore : Adds middle after second) :
    Adds before after (first ++ second) where
  declarations_eq := addsMore.declarations_eq.trans adds.declarations_eq
  length_le := Nat.le_trans adds.length_le addsMore.length_le
  names_mono taken := addsMore.names_mono (adds.names_mono taken)
  perm := by
    have moved := adds.perm.append_right second
    rw [List.append_assoc] at moved
    exact addsMore.perm.trans moved
  nodup := by
    rw [List.map_append, List.nodup_append']
    refine ⟨adds.nodup, addsMore.nodup, ?_⟩
    intro name inFirst inSecond
    obtain ⟨early, isEarly, rfl⟩ := List.mem_map.mp inFirst
    obtain ⟨late, isLate, same⟩ := List.mem_map.mp inSecond
    have free := addsMore.fresh late isLate
    rw [same, (adds.named early isEarly).2] at free
    simp at free
  fresh definition occurs := by
    rcases List.mem_append.mp occurs with isFirst | isSecond
    · exact adds.fresh definition isFirst
    · cases taken : Table.get? before.names definition.name with
      | none => rfl
      | some source =>
          have still := adds.names_mono taken
          rw [addsMore.fresh definition isSecond] at still
          simp at still
  named definition occurs := by
    rcases List.mem_append.mp occurs with isFirst | isSecond
    · have isNamed := adds.named definition isFirst
      exact ⟨isNamed.1, addsMore.names_mono isNamed.2⟩
    · exact addsMore.named definition isSecond

/-- A definition takes a free name, and then further definitions and it are added. -/
theorem Adds.define {state after result : State} {added : List TypeDefinition}
    (definition : TypeDefinition) (named : definition.name ≠ "")
    (free : Table.get? state.names definition.name = none)
    (adds : Adds (state.reserve definition.name definition.source) after added)
    (declarations : result.declarations = after.declarations)
    (length : after.classes.length ≤ result.classes.length)
    (names : result.names = after.names)
    (perm : result.definitions.Perm (definition :: after.definitions)) :
    Adds state result (definition :: added) where
  declarations_eq := declarations.trans adds.declarations_eq
  length_le := Nat.le_trans adds.length_le length
  names_mono {name source} taken := by
    have differs : name ≠ definition.name := by
      intro same
      rw [same, free] at taken
      simp at taken
    rw [names]
    exact adds.names_mono ((Table.get?_set_other _ _ differs).trans taken)
  perm := by
    refine perm.trans ((adds.perm.cons definition).trans ?_)
    exact List.perm_middle.symm
  nodup := by
    rw [List.map_cons, List.nodup_cons]
    refine ⟨?_, adds.nodup⟩
    intro occurs
    obtain ⟨other, isAdded, same⟩ := List.mem_map.mp occurs
    have isFree := adds.fresh other isAdded
    rw [same] at isFree
    simp [State.reserve, Table.get?_set_same] at isFree
  fresh other occurs := by
    rcases List.mem_cons.mp occurs with rfl | isAdded
    · exact free
    · have isFree := adds.fresh other isAdded
      have differs : other.name ≠ definition.name := by
        intro same
        simp [State.reserve, same, Table.get?_set_same] at isFree
      exact (Table.get?_set_other _ _ differs).symm.trans isFree
  named other occurs := by
    rw [names]
    rcases List.mem_cons.mp occurs with rfl | isAdded
    · exact ⟨named, adds.names_mono (Table.get?_set_same _ _ _)⟩
    · exact adds.named other isAdded

/-- The names that translating gives are fresh and not empty if all declarations have names. -/
def naming (declared : Table Key Declaration)
    (named : ∀ declaration ∈ Table.values declared, declaration.name ≠ "") :
    Discipline declared where
  Owns name := name ≠ ""
  Grows before after := ∃ added, Adds before after added
  Admits _ _ := True
  declarations_eq := fun ⟨_, adds⟩ => adds.declarations_eq
  length_le := fun ⟨_, adds⟩ => adds.length_le
  refl state := ⟨[], Adds.refl state⟩
  trans := fun ⟨_, adds⟩ ⟨_, addsMore⟩ => ⟨_, adds.trans addsMore⟩
  keeps _ _ := trivial
  anything := trivial
  primitive _ := trivial
  literal := trivial
  optional _ := trivial
  listOf _ := trivial
  tupleOf _ := trivial
  unionType _ := trivial
  base _ _ := trivial
  declaredClass _ _ := trivial
  declaredEnum _ _ := trivial
  declaredOwner := named _
  freshOwner owned := freshName_ne_empty fun empty => owned (String.append_eq_empty_iff.mp empty).1
  inlineEnum := by
    intro state owner property definition _ owned isFresh
    have nonempty : definition.name ≠ "" := by
      rw [isFresh]
      exact freshName_ne_empty fun empty => owned (String.append_eq_empty_iff.mp empty).1
    have free : Table.get? state.names definition.name = none := isFresh ▸ get?_freshName _ _
    exact ⟨⟨_, Adds.define (.ofEnum definition) nonempty free (Adds.refl _) rfl (Nat.le_refl _) rfl
      (definitions_withEnum _ definition)⟩, trivial⟩
  inlineClass := by
    rintro state after owner property definition _ owned isFresh ⟨added, adds⟩ _ _
    have nonempty : definition.name ≠ "" := by
      rw [isFresh]
      exact freshName_ne_empty fun empty => owned (String.append_eq_empty_iff.mp empty).1
    have free : Table.get? state.names definition.name = none := isFresh ▸ get?_freshName _ _
    have inside : state.classes.length ≤ after.classes.length := adds.length_le
    have longer : after.classes.length ≤
        (after.withClass state.classes.length definition).classes.length := by
      simp [State.withClass, List.length_insertIdx, inside]
    exact ⟨⟨_, Adds.define (.ofClass definition) nonempty free adds rfl longer rfl
      (definitions_withClass definition inside)⟩, trivial⟩

/-! ## Building all declarations -/

/-- While the declarations are built one after the other, the names of what is built are different
and lead to it, and the names of what is still to be built are not in use. -/
structure Building (declared : Table Key Declaration) (pending : List Declaration)
    (state : State) : Prop where
  declarations_eq : state.declarations = declared
  nodup : (state.definitions.map TypeDefinition.name).Nodup
  named : ∀ definition ∈ state.definitions, definition.name ≠ "" ∧
    Table.get? state.names definition.name = some definition.source
  reserved : ∀ declaration ∈ pending, declaration.kind ≠ .alias →
    Table.get? state.names declaration.name = some declaration.source ∧
      declaration.name ∉ state.definitions.map TypeDefinition.name
  differ : pending.Pairwise NamesDiffer

theorem Declared.building {state : State} (declared : Declared state) :
    Building state.declarations (Table.values state.declarations) state where
  declarations_eq := rfl
  nodup := by simp [State.definitions, declared.classes_eq, declared.enums_eq]
  named := by simp [State.definitions, declared.classes_eq, declared.enums_eq]
  reserved declaration occurs builds := by
    refine ⟨declared.names_eq declaration occurs builds, ?_⟩
    simp [State.definitions, declared.classes_eq, declared.enums_eq]
  differ := declared.differ

/-- What is found on the way to a declaration does not disturb the building. -/
theorem Building.adds {declared : Table Key Declaration} {pending : List Declaration}
    {before after : State} {added : List TypeDefinition}
    (building : Building declared pending before) (adds : Adds before after added) :
    Building declared pending after where
  declarations_eq := adds.declarations_eq.trans building.declarations_eq
  nodup := by
    rw [(adds.perm.map TypeDefinition.name).nodup_iff, List.map_append, List.nodup_append']
    refine ⟨building.nodup, adds.nodup, ?_⟩
    intro name inBefore inAdded
    obtain ⟨old, isOld, rfl⟩ := List.mem_map.mp inBefore
    obtain ⟨new, isNew, same⟩ := List.mem_map.mp inAdded
    have free := adds.fresh new isNew
    rw [same, (building.named old isOld).2] at free
    simp at free
  named definition occurs := by
    rcases List.mem_append.mp (adds.perm.mem_iff.mp occurs) with isOld | isNew
    · have isNamed := building.named definition isOld
      exact ⟨isNamed.1, adds.names_mono isNamed.2⟩
    · exact adds.named definition isNew
  reserved declaration isPending builds := by
    have reserved := building.reserved declaration isPending builds
    refine ⟨adds.names_mono reserved.1, ?_⟩
    rw [(adds.perm.map TypeDefinition.name).mem_iff, List.map_append, List.mem_append]
    rintro (isOld | isNew)
    · exact reserved.2 isOld
    · obtain ⟨new, isNew, same⟩ := List.mem_map.mp isNew
      have free := adds.fresh new isNew
      rw [same, reserved.1] at free
      simp at free
  differ := building.differ

/-- The next declaration is built under its own name. -/
theorem Building.define {declared : Table Key Declaration} {declaration : Declaration}
    {pending : List Declaration} {before after : State} (definition : TypeDefinition)
    (building : Building declared (declaration :: pending) before)
    (builds : declaration.kind ≠ .alias) (nonempty : declaration.name ≠ "")
    (name : definition.name = declaration.name) (source : definition.source = declaration.source)
    (declarations : after.declarations = before.declarations)
    (names : after.names = before.names)
    (perm : after.definitions.Perm (definition :: before.definitions)) :
    Building declared pending after where
  declarations_eq := declarations.trans building.declarations_eq
  nodup := by
    rw [(perm.map TypeDefinition.name).nodup_iff, List.map_cons, List.nodup_cons, name]
    exact ⟨(building.reserved declaration (by simp) builds).2, building.nodup⟩
  named other occurs := by
    rw [names]
    rcases List.mem_cons.mp (perm.mem_iff.mp occurs) with rfl | isOld
    · rw [name, source]
      exact ⟨nonempty, (building.reserved declaration (by simp) builds).1⟩
    · exact building.named other isOld
  reserved other isPending otherBuilds := by
    have reserved := building.reserved other (List.mem_cons_of_mem _ isPending) otherBuilds
    rw [names, (perm.map TypeDefinition.name).mem_iff, List.map_cons, List.mem_cons, name]
    refine ⟨reserved.1, ?_⟩
    rintro (same | isOld)
    · exact (List.pairwise_cons.mp building.differ).1 other isPending builds otherBuilds same.symm
    · exact reserved.2 isOld
  differ := (List.pairwise_cons.mp building.differ).2

/-- For an alias nothing is built. -/
theorem Building.skip {declared : Table Key Declaration} {declaration : Declaration}
    {pending : List Declaration} {state : State}
    (building : Building declared (declaration :: pending) state) :
    Building declared pending state where
  declarations_eq := building.declarations_eq
  nodup := building.nodup
  named := building.named
  reserved other isPending := building.reserved other (List.mem_cons_of_mem _ isPending)
  differ := (List.pairwise_cons.mp building.differ).2

theorem ensures_building {setting : Setting} {depth : Nat} {declared : Table Key Declaration}
    (named : ∀ declaration ∈ Table.values declared, declaration.name ≠ "")
    {declaration : Declaration} (isDeclared : declaration ∈ Table.values declared)
    {pending : List Declaration} {state : State}
    (building : Building declared (declaration :: pending) state) :
    Ensures (buildDeclaration setting depth declaration) state
      fun _ after => Building declared pending after := by
  have nonempty := named declaration isDeclared
  refine (naming declared named).ensures_buildDeclaration isDeclared building.declarations_eq
    ?ofClass ?ofEnum ?ofAlias
  case ofClass =>
    rintro after definition isClass name source ⟨added, adds⟩ _ _
    exact Building.define (.ofClass definition) (building.adds adds) (by simp [isClass]) nonempty
      name source rfl rfl (definitions_withClass definition adds.length_le)
  case ofEnum =>
    intro definition isEnum name source
    exact Building.define (.ofEnum definition) building (by simp [isEnum]) nonempty
      name source rfl rfl (definitions_withEnum state definition)
  case ofAlias => exact fun _ => building.skip

/-! ## The names in the end -/

/-- Names that are different, not empty and lead to what bears them. -/
structure WellNamed (state : State) : Prop where
  nodup : (state.classes.map ClassDefinition.name ++ state.enums.map EnumDefinition.name).Nodup
  classes : ∀ definition ∈ state.classes, definition.name ≠ "" ∧
    Table.get? state.names definition.name = some definition.source
  enums : ∀ definition ∈ state.enums, definition.name ≠ "" ∧
    Table.get? state.names definition.name = some definition.source

theorem Building.wellNamed {declared : Table Key Declaration} {pending : List Declaration}
    {state : State} (building : Building declared pending state) : WellNamed state where
  nodup := by
    have names : state.definitions.map TypeDefinition.name =
        state.classes.map ClassDefinition.name ++ state.enums.map EnumDefinition.name := by
      simp [State.definitions, TypeDefinition.name, Function.comp_def]
    rw [← names]
    exact building.nodup
  classes definition occurs :=
    building.named (.ofClass definition) (by simp [State.definitions, occurs])
  enums definition occurs :=
    building.named (.ofEnum definition) (by simp [State.definitions, occurs])

/-- Cutting bases leaves the names as they are. -/
theorem WellNamed.cut {state : State} (wellNamed : WellNamed state)
    {cut : List ClassDefinition} (areCut : List.Forall₂ CutFrom state.classes cut) :
    WellNamed { state with classes := cut } where
  nodup := by
    rw [map_name_of_cutFrom areCut]
    exact wellNamed.nodup
  classes definition occurs := by
    obtain ⟨original, isOriginal, isCut⟩ := exists_of_mem_cut areCut occurs
    rw [isCut.name_eq, isCut.source_eq]
    exact wellNamed.classes original isOriginal
  enums := wellNamed.enums

theorem ensures_wellNamed (setting : Setting) :
    Ensures (analysis setting) {} fun _ after => WellNamed after := by
  refine ensures_analysis Building Declared.building ?keeps ?ends
  case keeps =>
    exact fun declared isDeclared building =>
      ensures_building declared.name_ne_empty isDeclared building
  case ends => exact fun building areCut => building.wellNamed.cut areCut

/-- The classes and enums that an analysis yields have names that are different, not empty, and
taken for the places from which the classes and enums stem. -/
theorem wellNamed_of_analyze {library : Library} {request : Request} {channel channel' : Channel}
    {result : State}
    (returned : (analyze library request).onChannel channel = (.ok result, channel')) :
    WellNamed result :=
  of_analyze_eq_ok (ensures_wellNamed _) returned

/-- An owner with a pet, a definition whose name is taken by the root, and one that takes the name
that the pet would get. -/
def collidingNames : Library where
  documents :=
    [{ systemId := "file:///owner.json"
       rootName := "owner"
       root := some (.object
         { info := { pointer := "#" }
           properties :=
             [{ info := { pointer := "#/properties/pet" }
                name := "pet"
                type := .object { info := { pointer := "#/properties/pet" }, properties := [] }
                required := true
                default? := none }] })
       definitions :=
         [{ name := "Owner"
            pointer := "#/definitions/Owner"
            body := .object { info := { pointer := "#/definitions/Owner" }, properties := [] } },
          { name := "owner pet"
            pointer := "#/definitions/owner pet"
            body := .enum { pointer := "#/definitions/owner pet" } [.text "cat"] "string"
              (.object []) }]
       package := .null }]

theorem wellNamed_collidingNames : ∃ result channel,
    (analyze collidingNames {}).onChannel {} = (.ok result, channel) ∧
      result.names.map Prod.fst = ["Owner", "OwnerPet", "OwnerPet2"] ∧ WellNamed result := by
  have names : ((analyze collidingNames {}).onChannel {}).1.toOption.map
      (fun state => state.names.map Prod.fst) = some ["Owner", "OwnerPet", "OwnerPet2"] := by
    decide +kernel
  rcases returned : (analyze collidingNames {}).onChannel {} with ⟨stop | result, channel⟩
  · rw [returned] at names
    contradiction
  · rw [returned] at names
    exact ⟨result, channel, rfl, by injection names, wellNamed_of_analyze returned⟩

end Analysis

end Typeloom
