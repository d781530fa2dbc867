import Typeloom.Proofs.Model.Takers
import Typeloom.Proofs.Model.InheritanceCycles
import Typeloom.Proofs.Model.Names

/-!
# What becomes of roots and definitions

Every root and every definition is accounted for: it is left out as the request asks, or it has no
name, or its name is taken, or it becomes a class or an enum, or it stays an alias.  The accounts of
all of them, one behind the other, are what an analysis does and what it finds.
-/

namespace Typeloom

namespace Analysis

open Reporting

/-- What may become of a root or definition. -/
inductive Fate
  | leftOut
  | nameless
  | collides
  | becomesClass
  | becomesEnum
  | staysAlias
deriving DecidableEq

/-- Whether a root or definition that stands behind some others calls for a fate. -/
def CallsFor (request : Request) (earlier : List NamedNode) (named : NamedNode) : Fate → Prop
  | .leftOut => isLeftOut request named = true
  | .nameless => isLeftOut request named = false ∧ Naming.pascalCase named.name = ""
  | .collides =>
      isLeftOut request named = false ∧ Naming.pascalCase named.name ≠ "" ∧
        (declarationOf request named).kind ≠ .alias ∧ holder? request earlier named ≠ none
  | .becomesClass =>
      isLeftOut request named = false ∧ Naming.pascalCase named.name ≠ "" ∧
        (declarationOf request named).kind = .classDefinition ∧ holder? request earlier named = none
  | .becomesEnum =>
      isLeftOut request named = false ∧ Naming.pascalCase named.name ≠ "" ∧
        (declarationOf request named).kind = .enumDefinition ∧ holder? request earlier named = none
  | .staysAlias =>
      isLeftOut request named = false ∧ Naming.pascalCase named.name ≠ "" ∧
        (declarationOf request named).kind = .alias

/-- What becomes of a root or definition that stands behind some others. -/
def fateOf (request : Request) (earlier : List NamedNode) (named : NamedNode) : Fate :=
  if isLeftOut request named then .leftOut
  else if Naming.pascalCase named.name = "" then .nameless
  else if (declarationOf request named).kind = .alias then .staysAlias
  else if (holder? request earlier named).isSome then .collides
  else if (declarationOf request named).kind = .enumDefinition then .becomesEnum
  else .becomesClass

section FateOf

variable {request : Request} {earlier : List NamedNode} {named : NamedNode}

/-- Every root and every definition calls for one fate. -/
theorem callsFor_iff {fate : Fate} :
    CallsFor request earlier named fate ↔ fate = fateOf request earlier named := by
  constructor
  · intro calls
    cases fate <;> simp_all [CallsFor, fateOf, Option.isSome_iff_ne_none]
  · rintro rfl
    unfold fateOf
    split_ifs with leftOut isEmpty isAlias taken isEnum
    all_goals simp_all [CallsFor, Option.isSome_iff_ne_none]
    cases isKind : (declarationOf request named).kind <;> simp_all

theorem fateOf_of_class (declared : isDeclared request earlier named = true)
    (isClass : (declarationOf request named).kind = .classDefinition) :
    fateOf request earlier named = .becomesClass := by
  simp_all [isDeclared, fateOf]

theorem fateOf_of_enum (declared : isDeclared request earlier named = true)
    (isEnum : (declarationOf request named).kind = .enumDefinition) :
    fateOf request earlier named = .becomesEnum := by
  simp_all [isDeclared, fateOf]

theorem fateOf_of_alias (declared : isDeclared request earlier named = true)
    (isAlias : (declarationOf request named).kind = .alias) :
    fateOf request earlier named = .staysAlias := by
  simp_all [isDeclared, fateOf]

theorem fateOf_of_not_isDeclared (undeclared : isDeclared request earlier named = false) :
    fateOf request earlier named = .leftOut ∨ fateOf request earlier named = .nameless ∨
      fateOf request earlier named = .collides := by
  unfold fateOf
  split
  · simp
  · split
    · simp
    · simp_all [isDeclared, Option.isSome_iff_ne_none]

end FateOf

/-- What is done and found for a root or definition. -/
structure Account where
  named : NamedNode
  fate : Fate
  /-- What is done when it is declared. -/
  declaring : Transcript
  /-- What is done when it is built. -/
  building : Transcript
  /-- The class that it becomes, and those that are made on the way. -/
  classes : List ClassDefinition
  enums : List EnumDefinition

namespace Account

variable (account : Account)

/-- Whether nothing is built. -/
structure IsUnbuilt : Prop where
  building_eq : account.building = []
  classes_eq : account.classes = []
  enums_eq : account.enums = []

/-- Whether a class or an enum of a name and a source is made of the root or definition. -/
def IsOwn (name source : String) : Prop :=
  name = Naming.pascalCase account.named.name ∧
    source = account.named.document.systemId ++ account.named.node.pointer

/-- Whether what is built is what a fate asks for. -/
def IsBuiltAs : Fate → Prop
  | .becomesClass =>
      List.Forall₂ Announces account.building.infos account.classes ∧
        ∃ definition inside, account.classes = definition :: inside ∧
          account.IsOwn definition.name definition.source
  | .becomesEnum =>
      account.building = [.poll] ∧ account.classes = [] ∧
        ∃ definition, account.enums = [definition] ∧
          account.IsOwn definition.name definition.source
  | .staysAlias =>
      account.building = [.poll, .notify (aliasReport account.named)] ∧ account.classes = [] ∧
        account.enums = []
  | _ => account.IsUnbuilt

/-- Whether a root or definition that stands behind some others gets its due. -/
structure IsDue (request : Request) (earlier : List NamedNode) : Prop where
  fate_eq : account.fate = fateOf request earlier account.named
  declaring_eq : account.declaring = Analysis.declaring request earlier account.named
  built : account.IsBuiltAs account.fate

end Account

/-- The accounts of roots and definitions that stand behind some others. -/
inductive AreDue (request : Request) : List NamedNode → List Account → Prop
  | nothing {earlier : List NamedNode} : AreDue request earlier []
  | next {earlier : List NamedNode} {account : Account} {rest : List Account}
      (isDue : account.IsDue request earlier)
      (others : AreDue request (earlier ++ [account.named]) rest) :
      AreDue request earlier (account :: rest)

/-! ## Building -/

/-- An account of a root or definition that is due. -/
def dueTo (request : Request) (earlier : List NamedNode) (named : NamedNode)
    (building : Transcript) (classes : List ClassDefinition) (enums : List EnumDefinition) :
    Account where
  named := named
  fate := fateOf request earlier named
  declaring := declaring request earlier named
  building := building
  classes := classes
  enums := enums

theorem isDue_undeclared {request : Request} {earlier : List NamedNode} {named : NamedNode}
    (undeclared : isDeclared request earlier named = false) :
    (dueTo request earlier named [] [] []).IsDue request earlier := by
  refine ⟨rfl, rfl, ?_⟩
  rcases fateOf_of_not_isDeclared undeclared with isFate | isFate | isFate <;>
  · rw [dueTo, isFate]
    exact ⟨rfl, rfl, rfl⟩

/-- Whether classes and enums have been added for a root or definition as it is due. -/
def AddsDue (request : Request) (earlier : List NamedNode) (named : NamedNode)
    (building : Transcript) (state after : State) : Prop :=
  ∃ classes enums, after.classes = state.classes ++ classes ∧
    after.enums = state.enums ++ enums ∧
      (dueTo request earlier named building classes enums).IsDue request earlier

section Building

variable {request : Request} {earlier : List NamedNode} {named : NamedNode} {state : State}

theorem recounts_ofClass {info : NodeInfo} {base : Step (Option String)}
    {fields : Step (List FieldDefinition)} (declared : isDeclared request earlier named = true)
    (isClass : (declarationOf request named).kind = .classDefinition)
    (pointer : info.pointer = named.node.pointer) (ofBase : Unfolding base)
    (ofFields : Unfolding fields) :
    Recounts (fun _ => True)
      (buildClass (Naming.pascalCase named.name) named.document.systemId
        (packageOf request named.document) info base fields) state
      fun transcript _ after =>
        AddsDue request earlier named ([.poll] ++ transcript) state after := by
  apply ((recounts_buildClass ofBase ofFields state).loosen fun _ _ => trivial).mono
  rintro transcript _ after ⟨rest, definition, inside, rfl, hasName, hasSource, unfolds⟩
  rw [pointer] at hasSource unfolds ⊢
  obtain ⟨enums, grows⟩ := unfolds.enums
  refine ⟨definition :: inside, enums, unfolds.classes_eq, grows.symm, rfl, rfl, ?_⟩
  rw [dueTo, fateOf_of_class declared isClass]
  exact ⟨unfolds.announced, definition, inside, rfl, hasName, hasSource⟩

theorem recounts_ofAlias (declared : isDeclared request earlier named = true)
    (isAlias : (declarationOf request named).kind = .alias) :
    Recounts (fun _ => True)
      (reportAt .info (aliasReport named).message named.document.systemId named.node.pointer) state
      fun transcript _ after =>
        AddsDue request earlier named ([.poll] ++ transcript) state after := by
  apply recounts_reportAt trivial
  refine ⟨[], [], (List.append_nil _).symm, (List.append_nil _).symm, rfl, rfl, ?_⟩
  rw [dueTo, fateOf_of_alias declared isAlias]
  exact ⟨rfl, rfl, rfl⟩

end Building

/-- Building a root or definition that is declared adds what it is due. -/
theorem recounts_buildDeclaration {setting : Setting} {depth : Nat} {earlier : List NamedNode}
    {named : NamedNode} (declared : isDeclared setting.request earlier named = true)
    (state : State) :
    Recounts (fun _ => True)
      (buildDeclaration setting depth (declarationOf setting.request named)) state
      fun transcript _ after => AddsDue setting.request earlier named transcript state after := by
  have aliases := unfoldingAliases_followAlias setting depth
  have ofProperties (properties : List (Property Node)) :
      Unfolding (translateProperties setting (followAlias setting depth) []
        ((declarationOf setting.request named).site setting) properties) :=
    (unfolding_translation aliases).2.2 _ properties
  rw [buildDeclaration_eq]
  apply recounts_bind
  apply recounts_liftM
  apply chronicles_poll trivial
  unfold buildPolled
  cases isNode : named.node with
  | object body =>
      simp only [declarationOf, isNode]
      apply recounts_ofClass declared _ _ (unfolding_pure none) (ofProperties body.properties)
      · simp [Declaration.kind, declarationOf, isNode]
      · simp [isNode, Node.pointer, Node.info]
  | allOf info base extension =>
      simp only [declarationOf, isNode]
      apply recounts_ofClass declared _ _ (unfolding_base aliases _ info.pointer base)
      · cases extension with
        | none => exact unfolding_pure []
        | some body => exact ofProperties body.properties
      · simp [Declaration.kind, declarationOf, isNode]
      · simp [isNode, Node.pointer, Node.info]
  | enum info values valueType memberNames =>
      simp only [declarationOf, isNode]
      apply recounts_buildEnum
      intro members built
      refine ⟨[], [_], (List.append_nil _).symm, rfl, rfl, rfl, ?_⟩
      rw [dueTo, fateOf_of_enum declared (by simp [Declaration.kind, declarationOf, isNode])]
      exact ⟨rfl, rfl, _, rfl, rfl, by simp [isNode, Node.pointer, Node.info]⟩
  | _ =>
      simp only [declarationOf, isNode]
      rw [← isNode]
      apply recounts_ofAlias declared
      simp [Declaration.kind, declarationOf, isNode]

/-- The declared ones of some roots and definitions are built one after the other, and there are
accounts of all of them. -/
theorem recounts_buildDeclared (setting : Setting) (depth : Nat) (items : List NamedNode)
    (earlier : List NamedNode) (state : State) :
    Recounts (fun _ => True)
      (((declaredAmong setting.request earlier items).map (declarationOf setting.request)).forM
        (buildDeclaration setting depth)) state
      fun transcript _ after => ∃ accounts, AreDue setting.request earlier accounts ∧
        accounts.map Account.named = items ∧ transcript = accounts.flatMap Account.building ∧
          after.classes = state.classes ++ accounts.flatMap Account.classes ∧
          after.enums = state.enums ++ accounts.flatMap Account.enums := by
  induction items generalizing earlier state with
  | nil => exact recounts_pure ⟨[], .nothing, by simp⟩
  | cons named items ih =>
      rw [declaredAmong]
      cases declared : isDeclared setting.request earlier named with
      | true =>
          apply recounts_bind
          apply (recounts_buildDeclaration declared state).mono
          rintro transcript _ middle ⟨classes, enums, classes_eq, enums_eq, isDue⟩
          apply (ih (earlier ++ [named]) middle).mono
          rintro rest _ after ⟨accounts, areDue, rfl, rfl, furtherClasses, furtherEnums⟩
          refine ⟨_ :: accounts, .next isDue areDue, rfl, rfl, ?_, ?_⟩
          · rw [furtherClasses, classes_eq, List.append_assoc]
            rfl
          · rw [furtherEnums, enums_eq, List.append_assoc]
            rfl
      | false =>
          apply (ih (earlier ++ [named]) state).mono
          rintro rest _ after ⟨accounts, areDue, rfl, rfl, furtherClasses, furtherEnums⟩
          exact ⟨_ :: accounts, .next (isDue_undeclared declared) areDue, rfl, rfl, furtherClasses,
            furtherEnums⟩

/-! ## Accounts of everything -/

section Accounts

variable {request : Request} {earlier : List NamedNode} {account : Account}

theorem AreDue.declaringAll_eq {accounts : List Account}
    (areDue : AreDue request earlier accounts) :
    declaringAll request earlier (accounts.map Account.named) =
      accounts.flatMap Account.declaring := by
  induction areDue with
  | nothing => rfl
  | next isDue _ ih =>
      rw [List.map_cons, declaringAll, List.flatMap_cons, ih, isDue.declaring_eq]

theorem AreDue.isDue {before rest : List Account}
    (areDue : AreDue request earlier (before ++ account :: rest)) :
    account.IsDue request (earlier ++ before.map Account.named) := by
  induction before generalizing earlier with
  | nil =>
      cases areDue with
      | next isDue _ =>
          rw [List.map_nil, List.append_nil]
          exact isDue
  | cons other before ih =>
      cases areDue with
      | next _ others =>
          have isDue := ih others
          rwa [List.append_assoc] at isDue

namespace Account

variable (request earlier account) in
/-- Whether what is reported about a root or definition, when it is declared, is what a fate asks
for. -/
def IsDeclaredAs : Fate → Prop
  | .nameless => account.declaring = [.notify (namelessReport account.named)]
  | .collides => ∃ holder, holder? request earlier account.named = some holder ∧
      account.declaring = [.notify (collisionReport holder account.named)]
  | _ => account.declaring = []

variable (account) in
/-- Whether there is just one class or enum of the name of a root or definition, and it is the one
that is made of it, if a fate asks for one. -/
def IsFoundAs (result : State) : Fate → Prop
  | .becomesClass =>
      ∃ definition, account.IsOwn definition.name definition.source ∧
        result.classes.filter (·.name = Naming.pascalCase account.named.name) = [definition]
  | .becomesEnum =>
      ∃ definition, account.IsOwn definition.name definition.source ∧
        result.enums.filter (·.name = Naming.pascalCase account.named.name) = [definition]
  | _ => True

variable (request earlier account) in
/-- Whether a root or definition that stands behind some others meets a fate in what an analysis has
found. -/
structure Meets (result : State) (fate : Fate) : Prop where
  calls : CallsFor request earlier account.named fate
  declared : account.IsDeclaredAs request earlier fate
  built : account.IsBuiltAs fate
  found : account.IsFoundAs result fate

theorem IsDue.isDeclaredAs (isDue : account.IsDue request earlier) :
    account.IsDeclaredAs request earlier account.fate := by
  have calls := callsFor_iff.mpr isDue.fate_eq
  have declares := isDue.declaring_eq
  unfold Analysis.declaring at declares
  cases isFate : account.fate with
  | collides =>
      rw [isFate] at calls
      obtain ⟨notLeftOut, nonempty, builds, taken⟩ := calls
      obtain ⟨holder, holds⟩ := Option.ne_none_iff_exists'.mp taken
      exact ⟨holder, holds, by simpa [notLeftOut, nonempty, builds, holds] using declares⟩
  | _ =>
      rw [isFate] at calls
      simp_all [CallsFor, IsDeclaredAs]

/-- A definition is the only one of its name where names are different. -/
theorem filter_eq_singleton {α : Type} {name : α → String} {items : List α} {item : α}
    (nodup : (items.map name).Nodup) (occurs : item ∈ items) :
    items.filter (fun other => name other = name item) = [item] := by
  induction items with
  | nil => cases occurs
  | cons first rest ih =>
      rw [List.map_cons, List.nodup_cons] at nodup
      rcases List.mem_cons.mp occurs with rfl | later
      · have noOther : rest.filter (fun other => name other = name item) = [] := by
          rw [List.filter_eq_nil_iff]
          intro other isLater same
          exact nodup.1 (List.mem_map.mpr ⟨other, isLater, of_decide_eq_true same⟩)
        rw [List.filter_cons, if_pos (decide_eq_true rfl), noOther]
      · have differs : name first ≠ name item :=
          fun same => nodup.1 (List.mem_map.mpr ⟨item, later, same.symm⟩)
        rw [List.filter_cons, if_neg (by simpa using differs), ih nodup.2 later]

theorem IsDue.isFoundAs {result : State} (isDue : account.IsDue request earlier)
    (wellNamed : WellNamed result)
    (classes : ∀ definition ∈ account.classes, ∃ left ∈ result.classes, CutFrom definition left)
    (enums : ∀ definition ∈ account.enums, definition ∈ result.enums) :
    account.IsFoundAs result account.fate := by
  have built := isDue.built
  cases isFate : account.fate with
  | becomesClass =>
      rw [isFate] at built
      obtain ⟨-, definition, inside, classes_eq, hasName, hasSource⟩ := built
      obtain ⟨left, isLeft, isCut⟩ := classes definition (by simp [classes_eq])
      rw [← isCut.name_eq] at hasName
      rw [← isCut.source_eq] at hasSource
      refine ⟨left, ⟨hasName, hasSource⟩, ?_⟩
      rw [← hasName]
      exact filter_eq_singleton wellNamed.nodup.of_append_left isLeft
  | becomesEnum =>
      rw [isFate] at built
      obtain ⟨-, -, definition, enums_eq, hasName, hasSource⟩ := built
      have occurs := enums definition (by simp [enums_eq])
      refine ⟨definition, ⟨hasName, hasSource⟩, ?_⟩
      rw [← hasName]
      exact filter_eq_singleton wellNamed.nodup.of_append_right occurs
  | _ => trivial

end Account

/-- The names of what becomes a class are the names of classes, in the same order. -/
theorem AreDue.sublist {accounts : List Account} (areDue : AreDue request earlier accounts) :
    ((accounts.filter (·.fate = .becomesClass)).map fun account =>
      Naming.pascalCase account.named.name).Sublist
      ((accounts.flatMap Account.classes).map ClassDefinition.name) := by
  induction areDue with
  | nothing => exact .slnil
  | @next earlier account rest isDue _ ih =>
      rw [List.flatMap_cons, List.map_append, List.filter_cons]
      split
      · rename_i isClass
        have built := isDue.built
        rw [of_decide_eq_true isClass] at built
        obtain ⟨-, definition, inside, classes_eq, hasName, -⟩ := built
        rw [classes_eq, List.map_cons, List.map_cons, List.cons_append, hasName]
        exact (ih.trans (List.sublist_append_right _ _)).cons_cons _
      · exact ih.trans (List.sublist_append_right _ _)

end Accounts

/-! ## The whole analysis -/

/-- Whether accounts tell everything that an analysis does and finds. -/
structure TellAll (library : Library) (request : Request) (result : State)
    (accounts : List Account) : Prop where
  /-- There is one account for each root and each definition. -/
  named_eq : accounts.map Account.named = library.namedNodes
  /-- First everything is declared, then everything is built, and then cycles are cut. -/
  ends : Ends (analyze library request)
    (accounts.flatMap Account.declaring ++ accounts.flatMap Account.building ++
      circles (severed (accounts.flatMap Account.classes) result.classes)) (.ok result)
  classes : List.Forall₂ CutFrom (accounts.flatMap Account.classes) result.classes
  enums_eq : result.enums = accounts.flatMap Account.enums
  /-- Everything meets one fate, which depends on what stands before it. -/
  fates : ∀ before account rest, accounts = before ++ account :: rest → ∀ fate,
    account.Meets request (before.map Account.named) result fate ↔ fate = account.fate
  inOrder : ((accounts.filter (·.fate = .becomesClass)).map fun account =>
    Naming.pascalCase account.named.name).Sublist (result.classes.map ClassDefinition.name)

section Passes

variable {library : Library} {request : Request}

/-- An analysis that returns has come through its three passes. -/
theorem exists_passes {channel channel' : Channel} {result : State}
    (returned : (analyze library request).onChannel channel = (.ok result, channel')) :
    ∃ declared built cut middle further,
      Leads (declareAll { library, request }) ({}, channel) () (declared, middle) ∧
        Leads (buildAll { library, request } declared.declarations) (declared, middle) ()
          (built, further) ∧
        Leads (cutCycles 0 built.classes) (built, further) cut (built, channel') ∧
        List.Forall₂ CutFrom built.classes cut ∧ result = { built with classes := cut } := by
  obtain ⟨⟨_, _⟩, _, runs, last⟩ := exists_of_onChannel_bind returned
  cases last
  have leads : Leads (analysis { library, request }) ({}, channel) () (result, channel') := runs
  rw [analysis_eq] at leads
  obtain ⟨_, ⟨declared, middle⟩, declares, leads⟩ := leads_bind.mp leads
  obtain ⟨_, _, gets, leads⟩ := leads_bind.mp leads
  obtain ⟨rfl, rfl⟩ := leads_get.mp gets
  obtain ⟨_, ⟨built, further⟩, builds, leads⟩ := leads_bind.mp leads
  obtain ⟨_, _, gets, leads⟩ := leads_bind.mp leads
  obtain ⟨rfl, rfl⟩ := leads_get.mp gets
  obtain ⟨cut, ⟨_, _⟩, cuts, modifies⟩ := leads_bind.mp leads
  obtain ⟨rfl, areCut⟩ := ensures_cutCycles 0 _ _ cuts
  obtain ⟨isResult, rfl⟩ := Prod.mk.inj (leads_modify.mp modifies)
  exact ⟨_, _, cut, _, _, declares, builds, cuts, areCut, isResult⟩

/-- What is done in the three passes is what an analysis does. -/
theorem ends_analyze {declaring building cutting : Transcript} {declared built : State}
    {cut : List ClassDefinition}
    (endsDeclaring : Ends ((declareAll { library, request }).run {}) declaring
      (.ok ((), declared)))
    (endsBuilding : Ends ((buildAll { library, request } declared.declarations).run declared)
      building (.ok ((), built)))
    (endsCutting : Ends ((cutCycles 0 built.classes).run built) cutting (.ok (cut, built))) :
    Ends (analyze library request) (declaring ++ building ++ cutting)
      (.ok { built with classes := cut }) := by
  have endsAnalysis : Ends ((analysis { library, request }).run {})
      (declaring ++ (building ++ cutting)) (.ok ((), { built with classes := cut })) := by
    rw [analysis_eq, StateT.run_bind]
    apply endsDeclaring.bind
    rw [StateT.run_bind]
    apply (ends_pure _).bind
    rw [StateT.run_bind]
    apply endsBuilding.bind
    rw [StateT.run_bind]
    apply (ends_pure _).bind
    rw [StateT.run_bind]
    exact endsCutting.bind_last (ends_pure _)
  rw [List.append_assoc]
  exact endsAnalysis.bind_last (ends_pure _)

/-- Every root and every definition gets its due when an analysis returns. -/
theorem exists_areDue (distinct : library.DistinctNames) {channel channel' : Channel}
    {result : State}
    (returned : (analyze library request).onChannel channel = (.ok result, channel')) :
    ∃ accounts, AreDue request [] accounts ∧ accounts.map Account.named = library.namedNodes ∧
      Ends (analyze library request)
        (accounts.flatMap Account.declaring ++ accounts.flatMap Account.building ++
          circles (severed (accounts.flatMap Account.classes) result.classes)) (.ok result) ∧
      List.Forall₂ CutFrom (accounts.flatMap Account.classes) result.classes ∧
      result.enums = accounts.flatMap Account.enums := by
  have wellNamed := of_analyze_eq_ok (ensures_wellNamed _) returned
  obtain ⟨declared, built, cut, middle, further, declares, builds, cuts, areCut, rfl⟩ :=
    exists_passes returned
  have endsDeclaring : Ends ((declareAll { library, request }).run {})
      (declaringAll request [] library.namedNodes)
      (.ok ((), declaredState request (declaredAmong request [] library.namedNodes))) := by
    have differ : ([] ++ library.namedNodes).Pairwise _ := keys_differ distinct
    rw [declareAll, declareAll_eq]
    exact ends_declareAll library.namedNodes differ
  obtain ⟨isDeclared, -⟩ := endsDeclaring.of_returned declares
  obtain ⟨-, rfl⟩ := Prod.mk.inj (Except.ok.inj isDeclared)
  rw [buildAll, values_declarations] at builds
  obtain ⟨building, endsBuilding, accounts, areDue, named_eq, rfl, classes_eq, enums_eq⟩ :=
    (recounts_buildDeclared { library, request } _ library.namedNodes [] _).of_leads builds
  have distinctNames : (built.classes.map ClassDefinition.name).Nodup := by
    rw [← map_name_of_cutFrom areCut]
    exact wellNamed.nodup.of_append_left
  obtain ⟨other, -, endsCutting⟩ := ends_cutCycles distinctNames built
  obtain ⟨isCut, -⟩ := endsCutting.of_returned cuts
  obtain ⟨rfl, -⟩ := Prod.mk.inj (Except.ok.inj isCut)
  have classes : built.classes = accounts.flatMap Account.classes := classes_eq
  have ends := ends_analyze endsDeclaring (by rwa [buildAll, values_declarations]) endsCutting
  rw [classes] at ends areCut
  rw [← named_eq, areDue.declaringAll_eq] at ends
  exact ⟨accounts, areDue, named_eq, ends, areCut, enums_eq⟩

theorem mem_flatMap_middle {α β : Type} {parts : α → List β} (before rest : List α) {item : α}
    {part : β} (occurs : part ∈ parts item) :
    part ∈ (before ++ item :: rest).flatMap parts :=
  List.mem_flatMap.mpr ⟨item, by simp, occurs⟩

/-- Everything is accounted for when an analysis returns, where the definitions of a document are
told apart by their names.  A class that is made inside of another one comes behind it, whether this
one is made of a root or definition or is itself made inside of another class. -/
theorem accounts_of_analyze (distinct : library.DistinctNames) {channel channel' : Channel}
    {result : State}
    (returned : (analyze library request).onChannel channel = (.ok result, channel')) :
    (∃ accounts, TellAll library request result accounts) ∧
    ∀ depth resolving site node, node.isObject = true →
      MakesClass (translateNode { library, request } (followAlias { library, request } depth)
        resolving site node) (site.systemId ++ node.pointer) := by
  constructor
  · have wellNamed := of_analyze_eq_ok (ensures_wellNamed _) returned
    obtain ⟨accounts, areDue, named_eq, ends, areCut, enums_eq⟩ := exists_areDue distinct returned
    refine ⟨accounts, named_eq, ends, areCut, enums_eq, ?fates, ?inOrder⟩
    case fates =>
      rintro before account rest rfl fate
      have isDue := areDue.isDue
      rw [List.nil_append] at isDue
      constructor
      · intro meets
        rw [isDue.fate_eq]
        exact callsFor_iff.mp meets.calls
      · rintro rfl
        refine ⟨callsFor_iff.mpr isDue.fate_eq, isDue.isDeclaredAs, isDue.built, ?_⟩
        apply isDue.isFoundAs wellNamed
        · intro definition isMade
          exact exists_cut_of_mem areCut (mem_flatMap_middle before rest isMade)
        · intro definition isMade
          rw [enums_eq]
          exact mem_flatMap_middle before rest isMade
    case inOrder =>
      rw [map_name_of_cutFrom areCut]
      exact areDue.sublist
  · intro depth resolving site node isObject
    exact makesClass_translateNode depth site isObject

end Passes

/-- An owner with a pet, and definitions that meet the other fates. -/
def manifold : Library where
  documents :=
    [{ systemId := "file:///owner.json"
       rootName := "owner"
       root := some (.object
         { info := { pointer := "#" }
           properties :=
             [{ info := { pointer := "#/properties/pet" }
                name := "pet"
                type := .object { info := { pointer := "#/properties/pet" }, properties := [] }
                required := true
                default? := none }] })
       definitions :=
         [{ name := "Owner"
            pointer := "#/definitions/Owner"
            body := .object { info := { pointer := "#/definitions/Owner" }, properties := [] } },
          { name := "---"
            pointer := "#/definitions/---"
            body := .primitive { pointer := "#/definitions/---" } (.text "string") },
          { name := "kind"
            pointer := "#/definitions/kind"
            body := .enum { pointer := "#/definitions/kind" } [.text "cat"] "string"
              (.object []) },
          { name := "label"
            pointer := "#/definitions/label"
            body := .primitive { pointer := "#/definitions/label" } (.text "string") },
          { name := "hidden"
            pointer := "#/definitions/hidden"
            body := .object { info := { pointer := "#/definitions/hidden" }, properties := [] } },
          { name := "Home"
            pointer := "#/definitions/Home"
            body := .object { info := { pointer := "#/definitions/Home" }, properties := [] } }]
       package := .null }]

/-- A request that leaves out what is hidden. -/
def withoutHidden : Request where
  ignoredClasses := [.text "Hidden"]

theorem accounts_manifold : ∃ result channel accounts,
    (analyze manifold withoutHidden).onChannel {} = (.ok result, channel) ∧
      manifold.DistinctNames ∧ TellAll manifold withoutHidden result accounts ∧
      result.classes.map ClassDefinition.name = ["Owner", "OwnerPet", "Home"] ∧
      result.enums.map EnumDefinition.name = ["Kind"] ∧
      manifold.namedNodes.zipIdx.map (fun (named, place) =>
        fateOf withoutHidden (manifold.namedNodes.take place) named) =
          [.becomesClass, .collides, .nameless, .becomesEnum, .staysAlias, .leftOut,
            .becomesClass] := by
  have names : ((analyze manifold withoutHidden).onChannel {}).1.toOption.map
      (fun state => (state.classes.map ClassDefinition.name, state.enums.map EnumDefinition.name)) =
        some (["Owner", "OwnerPet", "Home"], ["Kind"]) := by
    decide +kernel
  have distinct : manifold.DistinctNames := ⟨by decide +kernel, by decide +kernel⟩
  rcases returned : (analyze manifold withoutHidden).onChannel {} with ⟨stop | result, channel⟩
  · rw [returned] at names
    contradiction
  · rw [returned] at names
    obtain ⟨classes, enums⟩ := Prod.mk.inj (Option.some.inj names)
    obtain ⟨⟨accounts, tellAll⟩, -⟩ := accounts_of_analyze distinct returned
    exact ⟨result, channel, accounts, rfl, distinct, tellAll, classes, enums, by decide +kernel⟩

end Analysis

end Typeloom
