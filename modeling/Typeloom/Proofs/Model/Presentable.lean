import Typeloom.Proofs.Model.EnumMembers
import Typeloom.Proofs.Model.Inheritance
import Typeloom.Proofs.Model.Lineage
import Typeloom.Proofs.Schema.Reading

/-!
# The analysis of sound documents

The analysis comes to an end, and only reports on the way.  If the documents are sound it meets no
fault, and what it finds can be presented: packages, descriptions and the names of enum members
are texts.
-/

namespace Typeloom

/-- Whether what a class says about itself can be presented. -/
structure ClassDefinition.Presentable (definition : ClassDefinition) : Prop where
  package : definition.package.IsText
  description : definition.description.isTruthy = true → definition.description.IsText

/-- Whether what an enum says about itself can be presented. -/
structure EnumDefinition.Presentable (definition : EnumDefinition) : Prop where
  package : definition.package.IsText
  description : definition.description.isTruthy = true → definition.description.IsText
  members : ∀ member ∈ definition.members, member.1.IsText

namespace Analysis

open Reporting

/-- Whether a declaration stems from a document of a library and can be built. -/
structure Declaration.Sound (library : Library) (declaration : Declaration) : Prop where
  document : ∃ document, library.documents[declaration.document]? = some document ∧
    declaration.node.Sound document.systemId
  package : declaration.package.IsText

/-- Whether all that has been found can be built or presented. -/
structure State.Presentable (library : Library) (state : State) : Prop where
  declarations : ∀ declaration ∈ Table.values state.declarations, declaration.Sound library
  classes : ∀ definition ∈ state.classes, definition.Presentable
  enums : ∀ definition ∈ state.enums, definition.Presentable

/-- A step ends and only reports.  In a given case it meets no fault, and keeps what has been found
presentable. -/
def Maintains {α : Type} (library : Library) (given : Prop) (step : Step α) : Prop :=
  ∀ state, Yields (given ∧ state.Presentable library)
    (fun result => result.2.Presentable library) (step.run state)

section Combinators

variable {α β : Type} {library : Library} {given assumed : Prop}

theorem Maintains.within {step : Step α} (maintains : Maintains library assumed step)
    (isGiven : given → assumed) : Maintains library given step :=
  fun state => (maintains state).within fun ⟨isCase, presentable⟩ => ⟨isGiven isCase, presentable⟩

theorem maintains_pure (value : α) : Maintains library given (pure value) :=
  fun _ => yields_pure And.right

theorem maintains_bind {step : Step α} {next : α → Step β} (first : Maintains library given step)
    (rest : ∀ value, Maintains library given (next value)) :
    Maintains library given (step >>= next) := by
  intro state
  rw [StateT.run_bind]
  refine yields_bind (first state) fun result => ?_
  exact (rest result.1 result.2).within fun ⟨isGiven, presentable⟩ => ⟨isGiven.1, presentable⟩

theorem maintains_get {next : State → Step β}
    (rest : ∀ state, Maintains library (given ∧ state.Presentable library) (next state)) :
    Maintains library given (get >>= next) :=
  fun state => (rest state state).within fun isGiven => ⟨isGiven, isGiven.2⟩

theorem maintains_set {state : State} (holds : given → state.Presentable library) :
    Maintains library given (set state) :=
  fun _ => yields_pure fun isGiven => holds isGiven.1

theorem maintains_modify {change : State → State}
    (holds : ∀ state, given → state.Presentable library → (change state).Presentable library) :
    Maintains library given (modify change) :=
  fun state => yields_pure fun ⟨isGiven, presentable⟩ => holds state isGiven presentable

theorem maintains_liftM {action : Reporting α} (yields : Yields True (fun _ => True) action) :
    Maintains library given (liftM action) :=
  fun _ => yields_bind yields.always fun _ => yields_pure fun isGiven => isGiven.1.2

theorem maintains_report (severity : Severity) (message : String)
    (systemId location : Option String) :
    Maintains library given (liftM (report severity message systemId location)) :=
  maintains_liftM (yields_notify _ fun _ => trivial)

theorem maintains_reportAt (severity : Severity) (message systemId pointer : String) :
    Maintains library given (reportAt severity message systemId pointer) :=
  maintains_report _ _ _ _

theorem maintains_orFault {result : Except Fault α} {next : α → Step β}
    (exists_value : given → ∃ value, result = .ok value)
    (rest : ∀ value, Maintains library (given ∧ result = .ok value) (next value)) :
    Maintains library given (orFault result >>= next) := by
  intro state
  have yields : Yields (given ∧ state.Presentable library)
      (fun found => result = .ok found.1 ∧ found.2 = state) ((orFault result).run state) := by
    have ofValue : Yields (given ∧ state.Presentable library) (fun value => result = .ok value)
        (ofExcept result) :=
      yields_ofExcept fun isGiven =>
        (exists_value isGiven.1).imp fun value isValue => ⟨isValue, isValue⟩
    exact yields_bind ofValue fun value => yields_pure fun isGiven => ⟨isGiven.2, rfl⟩
  rw [StateT.run_bind]
  refine yields_bind yields fun found => ?_
  exact (rest found.1 found.2).within fun ⟨⟨isGiven, presentable⟩, isValue, same⟩ =>
    ⟨⟨isGiven, isValue⟩, same ▸ presentable⟩

/-- A step that meets no fault yields what it ensures. -/
theorem Maintains.yields {step : Step α} (maintains : Maintains library given step) {state : State}
    {post : α → State → Prop} (ensures : Ensures step state post) :
    Yields (given ∧ state.Presentable library)
      (fun result => post result.1 result.2 ∧ result.2.Presentable library) (step.run state) :=
  (maintains state).returned.mono id fun _ _ ⟨presentable, _, _, returns⟩ =>
    ⟨ensures returns, presentable⟩

theorem maintains_forM {items : List α} {step : α → Step PUnit}
    (maintains : ∀ item ∈ items, Maintains library given (step item)) :
    Maintains library given (items.forM step) := by
  induction items with
  | nil => exact maintains_pure PUnit.unit
  | cons item rest ih =>
      obtain ⟨ofFirst, ofRest⟩ := List.forall_mem_cons.mp maintains
      exact maintains_bind ofFirst fun _ => ih ofRest

theorem maintains_foldlM {items : List α} {step : β → α → Step β}
    (maintains : ∀ value item, Maintains library given (step value item)) (initial : β) :
    Maintains library given (items.foldlM step initial) := by
  induction items generalizing initial with
  | nil => exact maintains_pure initial
  | cons item rest ih =>
      rw [List.foldlM_cons]
      exact maintains_bind (maintains initial item) ih

end Combinators

/-! ## Names, enums and classes -/

section Additions

variable {library : Library} {given : Prop} {state : State}

theorem State.Presentable.withEnum (presentable : state.Presentable library)
    {definition : EnumDefinition} (isPresentable : definition.Presentable) :
    (state.withEnum definition).Presentable library where
  declarations := presentable.declarations
  classes := presentable.classes
  enums other occurs := by
    rcases List.mem_append.mp occurs with old | new
    · exact presentable.enums other old
    · rwa [List.mem_singleton.mp new]

theorem State.Presentable.withClass (presentable : state.Presentable library) {place : Nat}
    {definition : ClassDefinition} (isPresentable : definition.Presentable) :
    (state.withClass place definition).Presentable library where
  declarations := presentable.declarations
  classes other occurs := by
    by_cases inside : place ≤ state.classes.length
    · rcases (List.mem_insertIdx inside).mp occurs with rfl | old
      · exact isPresentable
      · exact presentable.classes other old
    · rw [State.withClass, List.insertIdx_of_length_lt (Nat.lt_of_not_le inside)] at occurs
      exact presentable.classes other occurs
  enums := presentable.enums

theorem maintains_takeName (base source : String) :
    Maintains library given (takeName base source) :=
  maintains_get fun _ => maintains_bind
    (maintains_set fun ⟨_, presentable⟩ =>
      ⟨presentable.declarations, presentable.classes, presentable.enums⟩)
    fun _ => maintains_pure _

/-- The members of an enum whose names are given by texts have texts as names. -/
theorem exists_membersOf {memberNames : Json} (named : memberNames.HasTexts)
    (values : List Json) : ∃ members, membersOf memberNames values = .ok members ∧
      ∀ member ∈ members, member.1.IsText := by
  obtain ⟨names, rfl, areTexts⟩ := named
  exact ⟨_, membersOf_eq areTexts values, isText_of_mem_textNamed⟩

theorem maintains_buildEnum {name systemId : String} {package : Json} {info : NodeInfo}
    {values : List Json} {valueType : String} {memberNames : Json}
    (presents : given → package.IsText ∧ info.Described ∧ memberNames.HasTexts) :
    Maintains library given
      (buildEnum name systemId package info values valueType memberNames) := by
  refine maintains_orFault (fun isGiven => ?_) fun members => ?_
  · exact (exists_membersOf (presents isGiven).2.2 values).imp fun _ => And.left
  · refine maintains_modify fun state ⟨isGiven, isMembers⟩ presentable => ?_
    obtain ⟨isText, described, named⟩ := presents isGiven
    obtain ⟨_, found, areTexts⟩ := exists_membersOf named values
    obtain rfl := Except.ok.inj (found.symm.trans isMembers)
    exact presentable.withEnum ⟨isText, described, areTexts⟩

theorem maintains_buildClass {name systemId : String} {package : Json} {info : NodeInfo}
    {base : Step (Option String)} {fields : Step (List FieldDefinition)}
    (presents : given → package.IsText ∧ info.Described)
    (ofBase : Maintains library given base) (ofFields : Maintains library given fields) :
    Maintains library given (buildClass name systemId package info base fields) := by
  refine maintains_get fun state => maintains_bind (maintains_reportAt _ _ _ _) fun _ => ?_
  refine maintains_bind (ofBase.within And.left) fun base => ?_
  refine maintains_bind (ofFields.within And.left) fun fields => ?_
  refine maintains_modify fun after ⟨isGiven, _⟩ presentable => ?_
  obtain ⟨isText, described⟩ := presents isGiven
  exact presentable.withClass ⟨isText, described⟩

end Additions

/-! ## Translation -/

/-- Whether a site is in the document with an address, and its package is a text. -/
structure Site.Sound (library : Library) (systemId : String) (site : Site) : Prop where
  document : ∃ document, library.documents[site.document]? = some document ∧
    document.systemId = systemId
  package : site.package.IsText

/-- A reference that resolves is followed without a fault, whether or not it leads to something. -/
theorem exists_resolve {library : Library} {site : Site} {systemId : String}
    {reference : Reference} (sound : site.Sound library systemId)
    (resolves : reference.Resolves systemId) :
    ∃ found, library.resolve site.document reference = .ok found := by
  obtain ⟨referring, isReferring, rfl⟩ := sound.document
  obtain ⟨target, isTarget, leads⟩ := resolves
  have hasIndex : ∃ index?,
      library.documentIndex? site.document referring.systemId target = .ok index? := by
    unfold Library.documentIndex?
    split
    · exact ⟨_, rfl⟩
    · rename_i notLocal
      obtain ⟨found, isFound⟩ := leads.resolve_left notLocal
      exact ⟨library.indexOf? found, by rw [isFound]; rfl⟩
  obtain ⟨index?, isIndex⟩ := hasIndex
  change ∃ found, reference.target.textOf >>= library.resolveText site.document = .ok found
  rw [isTarget]
  change ∃ found, library.resolveText site.document target = .ok found
  rw [Library.resolveText, isReferring]
  simp only [isIndex]
  cases index? with
  | none => exact ⟨none, rfl⟩
  | some index =>
      simp only [bind, Except.bind]
      split <;> exact ⟨_, rfl⟩

section Translation

variable {setting : Setting} {follow : List Key → Declaration → Step TypeExpr}
  {resolving : List Key} {given : Prop}

/-- Whether aliases that are sound are followed without a fault. -/
def MaintainsAliases (library : Library) (given : Prop)
    (follow : List Key → Declaration → Step TypeExpr) : Prop :=
  ∀ resolving declaration,
    Maintains library (given ∧ declaration.Sound library) (follow resolving declaration)

theorem MaintainsAliases.within {library : Library} {assumed : Prop}
    (aliases : MaintainsAliases library assumed follow) (isGiven : given → assumed) :
    MaintainsAliases library given follow :=
  fun resolving declaration => (aliases resolving declaration).within fun ⟨isCase, sound⟩ =>
    ⟨isGiven isCase, sound⟩

theorem maintains_translateReference (systemId : String)
    (aliases : MaintainsAliases setting.library given follow) {site : Site}
    {reference : Reference}
    (holds : given → site.Sound setting.library systemId ∧ reference.Resolves systemId) :
    Maintains setting.library given
      (translateReference setting follow resolving site reference) := by
  unfold translateReference
  extract_lets shown
  refine maintains_orFault (fun isGiven => ?_) fun target? => ?_
  · exact (holds isGiven).elim exists_resolve
  cases target? with
  | none => exact maintains_bind (maintains_reportAt _ _ _ _) fun _ => maintains_pure _
  | some target =>
      refine maintains_get fun state => ?_
      split
      · exact maintains_pure _
      · rename_i declaration isDeclared
        split
        · exact maintains_pure _
        · exact maintains_pure _
        · split
          · exact maintains_bind (maintains_reportAt _ _ _ _) fun _ => maintains_pure _
          · refine (aliases _ declaration).within fun ⟨⟨isGiven, _⟩, presentable⟩ => ⟨isGiven, ?_⟩
            exact presentable.declarations declaration (Table.mem_values_of_get? isDeclared)

theorem maintains_translateBase (systemId : String)
    (aliases : MaintainsAliases setting.library given follow) {site : Site} (pointer : String)
    {base : Option Reference}
    (holds : given → site.Sound setting.library systemId ∧
      SchemaReader.OptionResolves systemId base) :
    Maintains setting.library given
      (translateBase setting follow resolving site pointer base) := by
  cases base with
  | none => exact maintains_pure none
  | some reference =>
      refine maintains_bind (maintains_translateReference systemId aliases fun isGiven => ?_)
        fun type => ?_
      · obtain ⟨sound, resolves⟩ := holds isGiven
        exact ⟨⟨sound.document, sound.package⟩, resolves reference rfl⟩
      · split
        · exact maintains_pure _
        · exact maintains_bind (maintains_reportAt _ _ _ _) fun _ => maintains_pure none

theorem maintains_primitiveType {library : Library} {site : Site} {info : NodeInfo} {type : Json}
    (named : given → type.IsText) : Maintains library given (primitiveType site info type) := by
  unfold primitiveType
  split
  · exact maintains_pure _
  · refine maintains_orFault (fun isGiven => ?_) fun key => ?_
    · obtain ⟨content, rfl⟩ := named isGiven
      exact ⟨_, rfl⟩
    · split
      · exact maintains_pure _
      · exact maintains_bind (maintains_reportAt _ _ _ _) fun _ => maintains_pure _

theorem maintains_translation (aliases : MaintainsAliases setting.library given follow)
    (systemId : String) :
    (∀ site node,
      Maintains setting.library
        (given ∧ site.Sound setting.library systemId ∧ node.Sound systemId)
        (translateNode setting follow resolving site node)) ∧
    (∀ site nodes,
      Maintains setting.library
        (given ∧ site.Sound setting.library systemId ∧ ∀ node ∈ nodes, node.Sound systemId)
        (translateNodes setting follow resolving site nodes)) ∧
    ∀ site properties,
      Maintains setting.library
        (given ∧ site.Sound setting.library systemId ∧ Property.AllSound systemId properties)
        (translateProperties setting follow resolving site properties) := by
  refine translateNode.mutual_induct setting _ _ _ ?ref ?primitive ?const ?enum ?object ?allOf
    ?arrayOfAnything ?array ?tuple ?union ?noNode ?nextNode ?noProperty ?ignored ?nextProperty
  case ref =>
    intro site reference
    rw [translateNode]
    refine maintains_translateReference systemId (aliases.within And.left) ?_
    rintro ⟨-, atSite, sound⟩
    cases sound with
    | ref resolves => exact ⟨atSite, resolves⟩
  case primitive =>
    intro site info type
    rw [translateNode]
    refine maintains_primitiveType ?_
    rintro ⟨-, -, sound⟩
    cases sound with
    | primitive _ named => exact named
  case const =>
    intro site info value type
    rw [translateNode]
    exact maintains_pure _
  case enum =>
    intro site info values valueType memberNames
    rw [translateNode]
    refine maintains_bind (maintains_takeName _ _) fun name => ?_
    refine maintains_bind (maintains_buildEnum ?_) fun _ => maintains_pure _
    rintro ⟨-, atSite, sound⟩
    cases sound with
    | enum _ _ described named => exact ⟨atSite.package, described, named⟩
  case object =>
    intro site body ofProperties
    rw [translateNode]
    refine maintains_bind (maintains_takeName _ _) fun name => ?_
    refine maintains_bind (maintains_buildClass ?described (maintains_pure none)
      ((ofProperties name).within ?fields)) fun _ => maintains_pure _
    case described =>
      rintro ⟨-, atSite, sound⟩
      cases sound with
      | object described _ => exact ⟨atSite.package, described⟩
    case fields =>
      rintro ⟨isGiven, atSite, sound⟩
      cases sound with
      | object _ sound => exact ⟨isGiven, ⟨atSite.document, atSite.package⟩, sound⟩
  case allOf =>
    intro site info base extension ofProperties
    rw [translateNode]
    refine maintains_bind (maintains_takeName _ _) fun name => ?_
    refine maintains_bind (maintains_buildClass ?described
      (maintains_translateBase systemId (aliases.within And.left) _ ?ofBase) ?fields)
      fun _ => maintains_pure _
    case described =>
      rintro ⟨-, atSite, sound⟩
      cases sound with
      | allOf described _ _ => exact ⟨atSite.package, described⟩
    case ofBase =>
      rintro ⟨-, atSite, sound⟩
      cases sound with
      | allOf _ resolves _ => exact ⟨atSite, resolves⟩
    case fields =>
      cases extension with
      | none => exact maintains_pure []
      | some body =>
          refine (ofProperties name).within ?_
          rintro ⟨isGiven, atSite, sound⟩
          cases sound with
          | allOf _ _ sound =>
              exact ⟨isGiven, ⟨atSite.document, atSite.package⟩, sound body rfl⟩
  case arrayOfAnything =>
    intro site info minItems
    rw [translateNode]
    exact maintains_pure _
  case array =>
    intro site info item minItems ofItem
    rw [translateNode]
    refine maintains_bind (ofItem.within ?_) fun _ => maintains_pure _
    rintro ⟨isGiven, atSite, sound⟩
    cases sound with
    | array _ _ sound => exact ⟨isGiven, atSite, sound item rfl⟩
  case tuple =>
    intro site info items minItems ofItems
    rw [translateNode]
    refine maintains_bind (ofItems.within ?_) fun _ => maintains_pure _
    rintro ⟨isGiven, atSite, sound⟩
    cases sound with
    | tuple _ _ sound => exact ⟨isGiven, atSite, sound⟩
  case union =>
    intro site info keyword variants ofVariants
    rw [translateNode]
    refine maintains_bind (ofVariants.within ?_) fun _ => maintains_pure _
    rintro ⟨isGiven, atSite, sound⟩
    cases sound with
    | union _ _ sound => exact ⟨isGiven, atSite, sound⟩
  case noNode =>
    intro site
    rw [translateNodes]
    exact maintains_pure []
  case nextNode =>
    intro site node rest ofNode ofRest
    rw [translateNodes]
    refine maintains_bind (ofNode.within ?ofFirst) fun _ =>
      maintains_bind (ofRest.within ?ofOthers) fun _ => maintains_pure _
    case ofFirst =>
      rintro ⟨isGiven, atSite, sound⟩
      exact ⟨isGiven, atSite, (List.forall_mem_cons.mp sound).1⟩
    case ofOthers =>
      rintro ⟨isGiven, atSite, sound⟩
      exact ⟨isGiven, atSite, (List.forall_mem_cons.mp sound).2⟩
  case noProperty =>
    intro site
    rw [translateProperties]
    exact maintains_pure []
  case ignored =>
    intro site property rest ignored ofRest
    rw [translateProperties, if_pos ignored]
    refine ofRest.within ?_
    rintro ⟨isGiven, atSite, sound⟩
    exact ⟨isGiven, atSite, (List.forall_mem_cons.mp sound).2⟩
  case nextProperty =>
    intro site property rest notIgnored ofType ofRest
    rw [translateProperties, if_neg notIgnored]
    refine maintains_bind (ofType.within ?ofFirst) fun _ =>
      maintains_bind (ofRest.within ?ofOthers) fun _ => maintains_pure _
    case ofFirst =>
      rintro ⟨isGiven, atSite, sound⟩
      exact ⟨isGiven, ⟨atSite.document, atSite.package⟩, (List.forall_mem_cons.mp sound).1⟩
    case ofOthers =>
      rintro ⟨isGiven, atSite, sound⟩
      exact ⟨isGiven, atSite, (List.forall_mem_cons.mp sound).2⟩

end Translation

/-! ## The analysis -/

section Analyzing

variable {setting : Setting} {given : Prop}

/-- Whether the documents of a library are sound. -/
def SoundLibrary (library : Library) : Prop :=
  ∀ document ∈ library.documents, document.Sound

theorem isText_packageOf {request : Request} {document : Document} (sound : document.Sound) :
    (packageOf request document).IsText := by
  unfold packageOf
  split
  · exact ⟨_, rfl⟩
  · split
    · rename_i truthy
      exact sound.package truthy
    · exact ⟨_, rfl⟩

/-- The address of the document that a declaration stems from. -/
def Declaration.address (library : Library) (declaration : Declaration) : String :=
  (library.documents[declaration.document]?.map Document.systemId).getD ""

theorem Declaration.Sound.site {declaration : Declaration}
    (sound : declaration.Sound setting.library) (sounds : SoundLibrary setting.library) :
    (declaration.site setting).Sound setting.library (declaration.address setting.library) ∧
      declaration.node.Sound (declaration.address setting.library) := by
  obtain ⟨document, isDocument, ofNode⟩ := sound.document
  rw [Declaration.address, isDocument]
  refine ⟨⟨⟨document, isDocument, rfl⟩, ?_⟩, ofNode⟩
  rw [Declaration.site, Setting.packageAt, isDocument]
  exact isText_packageOf (sounds document (List.mem_of_getElem? isDocument))

theorem maintainsAliases_followAlias (setting : Setting) (depth : Nat) :
    MaintainsAliases setting.library (SoundLibrary setting.library)
      (followAlias setting depth) := by
  induction depth with
  | zero => exact fun _ _ => maintains_pure _
  | succ depth ih =>
      intro resolving declaration
      refine ((maintains_translation ih (declaration.address setting.library)).1 _ _).within ?_
      exact fun ⟨sounds, sound⟩ => ⟨sounds, sound.site sounds⟩

theorem maintains_buildDeclaration (depth : Nat) (declaration : Declaration) :
    Maintains setting.library
      (SoundLibrary setting.library ∧ declaration.Sound setting.library)
      (buildDeclaration setting depth declaration) := by
  have aliases : MaintainsAliases setting.library
      (SoundLibrary setting.library ∧ declaration.Sound setting.library)
      (followAlias setting depth) :=
    (maintainsAliases_followAlias setting depth).within And.left
  let systemId := declaration.address setting.library
  have ofProperties (properties : List (Property Node)) :
      Maintains setting.library ((SoundLibrary setting.library ∧
          declaration.Sound setting.library) ∧
        (declaration.site setting).Sound setting.library systemId ∧
        Property.AllSound systemId properties)
        (translateProperties setting (followAlias setting depth) []
          (declaration.site setting) properties) :=
    (maintains_translation aliases systemId).2.2 _ properties
  refine maintains_bind (maintains_liftM (yields_poll fun _ => trivial)) fun _ => ?_
  extract_lets site follow
  split
  · rename_i body isObject
    have parts (isGiven : SoundLibrary setting.library ∧ declaration.Sound setting.library) :
        site.Sound setting.library systemId ∧ body.info.Described ∧
          Property.AllSound systemId body.properties := by
      obtain ⟨atSite, sound⟩ := isGiven.2.site isGiven.1
      rw [isObject] at sound
      cases sound with
      | object described sound => exact ⟨atSite, described, sound⟩
    refine maintains_buildClass (fun isGiven => ⟨isGiven.2.package, (parts isGiven).2.1⟩)
      (maintains_pure none) ((ofProperties _).within fun isGiven => ?_)
    exact ⟨isGiven, (parts isGiven).1, (parts isGiven).2.2⟩
  · rename_i info base extension isDerived
    have parts (isGiven : SoundLibrary setting.library ∧ declaration.Sound setting.library) :
        site.Sound setting.library systemId ∧ info.Described ∧
          SchemaReader.OptionResolves systemId base ∧
          ∀ body ∈ extension, Property.AllSound systemId body.properties := by
      obtain ⟨atSite, sound⟩ := isGiven.2.site isGiven.1
      rw [isDerived] at sound
      cases sound with
      | allOf described resolves sound => exact ⟨atSite, described, resolves, sound⟩
    refine maintains_buildClass (fun isGiven => ⟨isGiven.2.package, (parts isGiven).2.1⟩)
      (maintains_translateBase systemId aliases _ fun isGiven =>
        ⟨(parts isGiven).1, (parts isGiven).2.2.1⟩) ?_
    split
    · refine (ofProperties _).within fun isGiven => ?_
      exact ⟨isGiven, (parts isGiven).1, (parts isGiven).2.2.2 _ rfl⟩
    · exact maintains_pure []
  · rename_i info values valueType memberNames isEnum
    refine maintains_buildEnum fun isGiven => ?_
    obtain ⟨-, sound⟩ := isGiven.2.site isGiven.1
    rw [isEnum] at sound
    cases sound with
    | enum _ _ described named => exact ⟨isGiven.2.package, described, named⟩
  · exact maintains_reportAt _ _ _ _

theorem maintains_declare {library : Library} {request : Request} {index : Nat}
    {systemId key rawName : String} {node : Node} {package : Json}
    (isDocument : given → ∃ document, library.documents[index]? = some document ∧
      node.Sound document.systemId) (isText : given → package.IsText) :
    Maintains library given (declare request index systemId key rawName node package) := by
  have declares : Maintains library given (modify fun state : State => { state with
      declarations := Table.set (systemId, key)
        { name := Naming.pascalCase rawName, document := index, systemId, key, node, package }
        state.declarations }) := by
    refine maintains_modify fun state isGiven presentable =>
      ⟨fun declaration occurs => ?_, presentable.classes, presentable.enums⟩
    rcases Table.mem_values_set occurs with rfl | old
    · exact ⟨isDocument isGiven, isText isGiven⟩
    · exact presentable.declarations declaration old
  unfold declare
  extract_lets name declaration
  split
  · exact maintains_pure ()
  · split
    · exact maintains_bind (maintains_reportAt _ _ _ _) maintains_pure
    · refine maintains_get fun state => ?_
      split
      · split
        · exact maintains_bind (maintains_reportAt _ _ _ _) maintains_pure
        · refine maintains_bind (maintains_modify fun state _ presentable => ?_) fun _ =>
            declares.within And.left
          exact ⟨presentable.declarations, presentable.classes, presentable.enums⟩
      · exact declares.within And.left

theorem maintains_declareDocument {library : Library} {request : Request} {index : Nat}
    {document : Document} (isDocument : library.documents[index]? = some document) :
    Maintains library (SoundLibrary library) (declareDocument request index document) := by
  have sound (sounds : SoundLibrary library) : document.Sound :=
    sounds document (List.mem_of_getElem? isDocument)
  have isText (sounds : SoundLibrary library) : (packageOf request document).IsText :=
    isText_packageOf (sound sounds)
  have ofDefinitions : Maintains library (SoundLibrary library)
      (document.definitions.forM fun definition =>
        declare request index document.systemId definition.name definition.name definition.body
          (packageOf request document)) :=
    maintains_forM fun definition occurs => maintains_declare
      (fun sounds => ⟨document, isDocument, (sound sounds).definitions definition occurs⟩) isText
  unfold declareDocument
  extract_lets package
  split
  · rename_i root isRoot
    refine maintains_bind (maintains_declare (fun sounds => ?_) isText) fun _ => ofDefinitions
    exact ⟨document, isDocument, (sound sounds).root root isRoot⟩
  · exact ofDefinitions

theorem maintains_cutCycles {library : Library} (index : Nat) (classes : List ClassDefinition) :
    Maintains library given (cutCycles index classes) := by
  rw [cutCycles_eq]
  refine maintains_foldlM (fun cut place => ?_) classes
  unfold cutAt
  split
  · exact maintains_pure _
  · split
    · exact maintains_bind (maintains_report _ _ _ _) fun _ => maintains_pure _
    · exact maintains_pure _

theorem presentable_of_cutFrom {definition cut : ClassDefinition}
    (presentable : definition.Presentable) (isCut : CutFrom definition cut) : cut.Presentable := by
  rcases isCut with rfl | rfl
  · exact presentable
  · exact ⟨presentable.package, presentable.description⟩

theorem maintains_cutting {library : Library} :
    Maintains library given (do
      let classes ← cutCycles 0 (← get).classes
      modify fun state => { state with classes }) := by
  intro state
  change Yields _ _ ((cutCycles 0 state.classes >>= fun classes =>
    modify fun state => { state with classes }).run state)
  rw [StateT.run_bind]
  refine yields_bind ((maintains_cutCycles 0 _).yields (ensures_cutCycles 0 _ state)) ?_
  rintro ⟨cut, after⟩
  refine yields_pure fun ⟨⟨_, presentable⟩, ⟨isAfter, areCut⟩, _⟩ => ?_
  obtain rfl : after = state := isAfter
  refine ⟨presentable.declarations, fun definition occurs => ?_, presentable.enums⟩
  -- A class that is cut has lost its base and nothing else.
  obtain ⟨original, isOriginal, isCut⟩ := exists_of_mem_cut areCut occurs
  exact presentable_of_cutFrom (presentable.classes original isOriginal) isCut

theorem maintains_analysis (setting : Setting) :
    Maintains setting.library (SoundLibrary setting.library) (analysis setting) := by
  refine maintains_bind (maintains_forM fun entry occurs => ?_) fun _ => ?_
  · exact maintains_declareDocument (List.mem_zipIdx_iff_getElem?.mp occurs)
  refine maintains_get fun state => ?_
  extract_lets declarations
  refine maintains_bind (maintains_forM fun declaration occurs => ?_) fun _ => maintains_cutting
  refine (maintains_buildDeclaration _ declaration).within fun ⟨sounds, presentable⟩ => ?_
  exact ⟨sounds, presentable.declarations declaration occurs⟩

/-- The analysis of sound documents meets no fault, and what it finds can be presented. -/
theorem yields_analyze (library : Library) (request : Request) :
    Yields (SoundLibrary library) (State.Presentable library) (analyze library request) := by
  have empty : State.Presentable library {} := ⟨by simp [Table.values], by simp, by simp⟩
  refine yields_bind ((maintains_analysis { library, request } {}).within
    fun sounds => ⟨sounds, empty⟩) fun result => ?_
  exact yields_pure And.right

end Analyzing

end Analysis

end Typeloom
