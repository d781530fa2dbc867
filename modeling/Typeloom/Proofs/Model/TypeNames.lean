import Typeloom.Proofs.Model.Names
import Typeloom.Proofs.Naming.Identifiers

/-!
# The spelling of the names of classes and enums

Every class and enum of a model has a name that begins with that of a root or definition, spelled
as a type name.  What is found inside of a class has more behind it, which is made of the names of
properties and of numbers.  So all these names hold letters and digits only, and whether a class
can have such a name is decided by the root or definition.
-/

namespace Typeloom

open Naming (IsSuffix IsTypeName)

namespace Analysis

theorem exists_freshName_eq (names : Table String String) (base : String) :
    ∃ suffix, IsSuffix suffix ∧ freshName names base = base ++ suffix := by
  rw [freshName]
  split
  · exact ⟨_, Naming.isSuffix_toString _, rfl⟩
  · exact ⟨"", Naming.isSuffix_empty, String.append_empty.symm⟩

/-- Whether a name is that of a root or definition, spelled as a type name, with something behind
it. -/
def Stems (library : Library) (name : String) : Prop :=
  ∃ named ∈ library.namedNodes, Naming.pascalCase named.name ≠ "" ∧
    ∃ suffix, name = Naming.pascalCase named.name ++ suffix ∧ IsSuffix suffix

section Stems

variable {library : Library}

theorem Stems.isTypeName {name : String} (stems : Stems library name) : IsTypeName name := by
  obtain ⟨named, -, nonempty, suffix, rfl, isSuffix⟩ := stems
  exact ⟨fun isEmpty => nonempty (String.append_eq_empty_iff.mp isEmpty).1,
    ((Naming.isSuffix_pascalCase named.name).append isSuffix).isAlphanum⟩

theorem Stems.freshName {owner : String} (stems : Stems library owner)
    (names : Table String String) (property : String) :
    Stems library (freshName names (owner ++ Naming.pascalCase property)) := by
  obtain ⟨named, isNamed, nonempty, suffix, rfl, isSuffix⟩ := stems
  obtain ⟨number, isNumber, isFresh⟩ := exists_freshName_eq names
    (Naming.pascalCase named.name ++ suffix ++ Naming.pascalCase property)
  refine ⟨named, isNamed, nonempty, suffix ++ Naming.pascalCase property ++ number, ?_, ?_⟩
  · rw [isFresh, String.append_assoc, String.append_assoc, String.append_assoc]
  · exact (isSuffix.append (Naming.isSuffix_pascalCase property)).append isNumber

/-! ## Declared names -/

theorem ensures_declareNamed {request : Request} {named : NamedNode} {state : State}
    (isNamed : named ∈ library.namedNodes)
    (stem : ∀ declaration ∈ Table.values state.declarations, Stems library declaration.name) :
    Ensures (declareNamed request named) state fun _ after =>
      ∀ declaration ∈ Table.values after.declarations, Stems library declaration.name := by
  unfold declareNamed declare
  dsimp only
  split
  · exact ensures_pure stem
  · split
    · exact ensures_bind (ensures_reportAt (ensures_pure stem))
    · rename_i nonempty
      have declares (declaration : Declaration)
          (isDeclared : declaration ∈ Table.values (Table.set
            (named.document.systemId, named.key)
            (declarationOf request named) state.declarations)) :
          Stems library declaration.name := by
        rcases Table.mem_values_set isDeclared with rfl | isOld
        · exact ⟨named, isNamed, by simpa using nonempty, "", String.append_empty.symm,
            Naming.isSuffix_empty⟩
        · exact stem declaration isOld
      refine ensures_bind (ensures_get ?_)
      split
      · split
        · exact ensures_bind (ensures_reportAt (ensures_pure stem))
        · exact ensures_bind (ensures_modify (ensures_modify declares))
      · exact ensures_modify declares

theorem ensures_declareAll (request : Request) :
    Ensures (library.namedNodes.forM (declareNamed request)) {} fun _ state =>
      ∀ declaration ∈ Table.values state.declarations, Stems library declaration.name :=
  ensures_forM
    (fun _ state => ∀ declaration ∈ Table.values state.declarations,
      Stems library declaration.name)
    (by simp [Table.values]) ensures_declareNamed

/-! ## Built names -/

/-- A state grows by definitions whose names stem from roots and definitions. -/
structure Spells (library : Library) (before after : State) : Prop where
  declarations_eq : after.declarations = before.declarations
  length_le : before.classes.length ≤ after.classes.length
  stem : ∀ definition ∈ after.definitions,
    definition ∈ before.definitions ∨ Stems library definition.name

theorem Spells.refl (state : State) : Spells library state state :=
  ⟨rfl, Nat.le_refl _, fun _ => Or.inl⟩

theorem Spells.trans {before middle after : State} (spells : Spells library before middle)
    (spellsOn : Spells library middle after) : Spells library before after where
  declarations_eq := spellsOn.declarations_eq.trans spells.declarations_eq
  length_le := Nat.le_trans spells.length_le spellsOn.length_le
  stem definition occurs := (spellsOn.stem definition occurs).elim (spells.stem definition) Or.inr

theorem spells_reserve (state : State) (name source : String) :
    Spells library state (state.reserve name source) :=
  ⟨rfl, Nat.le_refl _, fun _ => Or.inl⟩

theorem spells_withEnum {state : State} {definition : EnumDefinition}
    (stems : Stems library definition.name) :
    Spells library state (state.withEnum definition) where
  declarations_eq := rfl
  length_le := Nat.le_refl _
  stem other occurs := by
    rcases List.mem_cons.mp ((definitions_withEnum state definition).mem_iff.mp occurs) with
      rfl | isOld
    · exact Or.inr stems
    · exact Or.inl isOld

theorem spells_withClass {state : State} {place : Nat} {definition : ClassDefinition}
    (inside : place ≤ state.classes.length) (stems : Stems library definition.name) :
    Spells library state (state.withClass place definition) where
  declarations_eq := rfl
  length_le := by simp [State.withClass, List.length_insertIdx, inside]
  stem other occurs := by
    rcases List.mem_cons.mp ((definitions_withClass definition inside).mem_iff.mp occurs) with
      rfl | isOld
    · exact Or.inr stems
    · exact Or.inl isOld

/-- Translating gives names that stem from roots and definitions if all declarations have such
names. -/
def spelling (declared : Table Key Declaration)
    (stem : ∀ declaration ∈ Table.values declared, Stems library declaration.name) :
    Discipline declared where
  Owns := Stems library
  Grows := Spells library
  Admits _ _ := True
  declarations_eq := Spells.declarations_eq
  length_le := Spells.length_le
  refl := Spells.refl
  trans := Spells.trans
  keeps _ _ := trivial
  anything := trivial
  primitive _ := trivial
  literal := trivial
  optional _ := trivial
  listOf _ := trivial
  tupleOf _ := trivial
  unionType _ := trivial
  base _ _ := trivial
  declaredClass _ _ := trivial
  declaredEnum _ _ := trivial
  declaredOwner := stem _
  freshOwner owned := owned.freshName _ _
  inlineEnum _ _ owned isFresh :=
    ⟨(spells_reserve _ _ _).trans (spells_withEnum (isFresh ▸ owned.freshName _ _)), trivial⟩
  inlineClass _ _ owned isFresh spells _ _ :=
    ⟨((spells_reserve _ _ _).trans spells).trans
      (spells_withClass spells.length_le (isFresh ▸ owned.freshName _ _)), trivial⟩

end Stems

theorem ensures_stems (setting : Setting) :
    Ensures (analysis setting) {} fun _ after =>
      ∀ definition ∈ after.definitions, Stems setting.library definition.name := by
  refine ensures_analysis_of_declares (ensures_declareAll setting.request)
    (fun declared _ state => state.declarations = declared ∧
      ∀ definition ∈ state.definitions, Stems setting.library definition.name)
    ?begins ?keeps ?ends
  case begins =>
    intro state declared _
    exact ⟨rfl, by simp [State.definitions, declared.classes_eq, declared.enums_eq]⟩
  case keeps =>
    rintro state depth declaration rest before declared stem isDeclared ⟨same, stemmed⟩
    have keeps {after : State} (spells : Spells setting.library before after) :
        after.declarations = state.declarations ∧
          ∀ definition ∈ after.definitions, Stems setting.library definition.name :=
      ⟨spells.declarations_eq.trans same, fun definition occurs =>
        (spells.stem definition occurs).elim (stemmed definition) id⟩
    refine (spelling state.declarations stem).ensures_buildDeclaration isDeclared same
      ?ofClass ?ofEnum fun _ => keeps (.refl _)
    case ofClass =>
      intro after definition _ isName _ (spells : Spells setting.library before after) _ _
      exact keeps (spells.trans
        (spells_withClass spells.length_le (isName ▸ stem declaration isDeclared)))
    case ofEnum =>
      intro definition _ isName _
      exact keeps (spells_withEnum (isName ▸ stem declaration isDeclared))
  case ends =>
    rintro declared cut state ⟨-, stemmed⟩ areCut definition occurs
    rcases List.mem_append.mp occurs with isClass | isEnum
    · obtain ⟨found, isFound, rfl⟩ := List.mem_map.mp isClass
      obtain ⟨original, isOriginal, isCut⟩ := exists_of_mem_cut areCut isFound
      have stems : Stems setting.library original.name :=
        stemmed (.ofClass original) (List.mem_append_left _ (List.mem_map_of_mem isOriginal))
      rw [← isCut.name_eq] at stems
      exact stems
    · exact stemmed definition (List.mem_append_right _ isEnum)

section Returned

variable {library : Library} {request : Request} {channel after : Channel} {result : State}

/-- The classes and enums that an analysis yields have names that hold letters and digits only. -/
theorem isTypeName_of_analyze
    (returned : (analyze library request).onChannel channel = (.ok result, after)) :
    ∀ definition ∈ result.definitions, IsTypeName definition.name :=
  fun definition occurs =>
    (of_analyze_eq_ok (ensures_stems { library, request }) returned definition occurs).isTypeName

/-- A class can have the name of a class or enum that an analysis yields unless the name of the root
or definition that it stems from begins with a digit or is, alone, a keyword but for the size of its
letters. -/
theorem isUsable_iff_of_analyze
    (returned : (analyze library request).onChannel channel = (.ok result, after)) :
    ∀ definition ∈ result.definitions, ∃ named ∈ library.namedNodes, ∃ suffix,
      definition.name = Naming.pascalCase named.name ++ suffix ∧
        (Naming.IsUsable definition.name ↔
          ¬Naming.FirstIsDigit named.name ∧
            ¬(suffix = "" ∧ Naming.SpellsKeyword named.name)) := by
  intro definition occurs
  obtain ⟨named, isNamed, nonempty, suffix, isName, isSuffix⟩ :=
    of_analyze_eq_ok (ensures_stems { library, request }) returned definition occurs
  exact ⟨named, isNamed, suffix, isName, isName ▸ Naming.isUsable_append_iff nonempty isSuffix⟩

end Returned

/-- An object without properties as a definition. -/
def emptyObject (name : String) : Definition where
  name := name
  pointer := "#/definitions/" ++ name
  body := .object { info := { pointer := "#/definitions/" ++ name }, properties := [] }

/-- Three definitions, with a letter in front, with a digit in front, and with a keyword. -/
def misnamed : Library where
  documents :=
    [{ systemId := "file:///work/doc.json"
       rootName := "doc"
       root := none
       definitions := ["order", "3d", "none"].map emptyObject
       package := .null }]

theorem isUsable_iff_misnamed : ∃ result channel,
    (analyze misnamed {}).onChannel {} = (.ok result, channel) ∧
      result.definitions.map TypeDefinition.name = ["Order", "3D", "None"] ∧
      ∀ definition ∈ result.definitions, ∃ named ∈ misnamed.namedNodes, ∃ suffix,
        definition.name = Naming.pascalCase named.name ++ suffix ∧
          (Naming.IsUsable definition.name ↔
            ¬Naming.FirstIsDigit named.name ∧
              ¬(suffix = "" ∧ Naming.SpellsKeyword named.name)) := by
  have isOk : ((analyze misnamed {}).onChannel {}).1.toOption.map
      (fun result => result.definitions.map TypeDefinition.name) =
        some ["Order", "3D", "None"] := by
    decide +kernel
  rcases returned : (analyze misnamed {}).onChannel {} with ⟨stop | result, channel⟩
  · rw [returned] at isOk
    contradiction
  · rw [returned] at isOk
    exact ⟨result, channel, rfl, by injection isOk, isUsable_iff_of_analyze returned⟩

/-- No error is reported, and yet two classes have names that no class can have. -/
theorem not_isUsable_misnamed : ∃ result channel,
    (analyze misnamed {}).onChannel {} = (.ok result, channel) ∧ channel.errors = 0 ∧
      (∃ definition ∈ result.definitions,
        definition.name = "3D" ∧ ¬Naming.IsIdentifier definition.name) ∧
      ∃ definition ∈ result.definitions,
        definition.name = "None" ∧ definition.name ∈ Naming.pythonKeywords := by
  have isOk : ((analyze misnamed {}).onChannel {}).1.toOption.map
      (fun result => result.definitions.map TypeDefinition.name) =
        some ["Order", "3D", "None"] := by
    decide +kernel
  have noError : ((analyze misnamed {}).onChannel {}).2.errors = 0 := by decide +kernel
  rcases returned : (analyze misnamed {}).onChannel {} with ⟨stop | result, channel⟩
  · rw [returned] at isOk
    contradiction
  · rw [returned] at isOk noError
    have names : result.definitions.map TypeDefinition.name = ["Order", "3D", "None"] := by
      injection isOk
    have isDefined (name : String) (isName : name ∈ ["Order", "3D", "None"]) :
        ∃ definition ∈ result.definitions, definition.name = name :=
      List.mem_map.mp (names ▸ isName)
    obtain ⟨numbered, isNumbered, named⟩ := isDefined "3D" (by decide)
    obtain ⟨keyword, isKeyword, spelled⟩ := isDefined "None" (by decide)
    refine ⟨result, channel, rfl, noError, ⟨numbered, isNumbered, named, ?_⟩,
      keyword, isKeyword, spelled, spelled ▸ by decide +kernel⟩
    rw [named]
    rintro ⟨first, rest, characters, begins, -⟩
    have isDigit : first = '3' := (List.cons.inj characters).1.symm
    exact absurd begins (by rw [isDigit]; decide)

end Analysis

end Typeloom
