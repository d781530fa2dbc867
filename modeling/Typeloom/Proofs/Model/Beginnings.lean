import Typeloom.Proofs.Model.Relocation
import Typeloom.Proofs.Report.Chronicles

/-!
# The order in which classes are begun

Before a class gets its fields it is announced.  Whatever translating finds on the way to the fields
is announced later, so that the classes of a state stand in the order of their announcements: a
class keeps the place behind those that are there already, and what is made while it is under
construction comes behind it.
-/

namespace Typeloom

open Reporting

/-! ## Infos -/

/-- Whether an act reports something. -/
def Act.IsNotice : Act → Prop
  | .notify _ => True
  | _ => False

/-- Whether an act reports an info. -/
def Act.isInfo : Act → Bool
  | .notify diagnostic => diagnostic.severity = .info
  | _ => false

/-- The infos that are reported. -/
def Transcript.infos (transcript : Transcript) : Transcript :=
  transcript.filter Act.isInfo

theorem Transcript.infos_append (first rest : Transcript) :
    infos (first ++ rest) = infos first ++ infos rest :=
  List.filter_append ..

namespace Analysis

/-- The diagnostic that is reported for a place in a document. -/
def noticeAt (severity : Severity) (message systemId pointer : String) : Diagnostic :=
  { severity, message, systemId := some systemId, location := some pointer }

/-- The info that a class is begun. -/
def announcement (name systemId pointer : String) : Diagnostic :=
  noticeAt .info ("generating class " ++ name) systemId pointer

/-- Whether an act announces a class. -/
def Announces (act : Act) (definition : ClassDefinition) : Prop :=
  ∃ systemId pointer, act = .notify (announcement definition.name systemId pointer) ∧
    definition.source = systemId ++ pointer

/-! ## Chronicles of steps -/

/-- A step that begins in a state comes to an end after acts that are allowed.  A value that it
yields and the state in which it ends have a property together with these acts. -/
def Recounts {α : Type} (allowed : Act → Prop) (step : Step α) (state : State)
    (post : Transcript → α → State → Prop) : Prop :=
  Chronicles allowed (fun transcript outcome => post transcript outcome.1 outcome.2)
    (step.run state)

section Rules

variable {α β : Type} {allowed : Act → Prop} {state : State}

theorem Recounts.mono {step : Step α} {weak strong : Transcript → α → State → Prop}
    (recounts : Recounts allowed step state strong)
    (implies : ∀ transcript value after, strong transcript value after →
      weak transcript value after) :
    Recounts allowed step state weak :=
  Chronicles.mono recounts fun transcript outcome _ => implies transcript outcome.1 outcome.2

theorem Recounts.loosen {step : Step α} {post : Transcript → α → State → Prop}
    {allowedToo : Act → Prop} (recounts : Recounts allowed step state post)
    (implies : ∀ act, allowed act → allowedToo act) : Recounts allowedToo step state post :=
  Chronicles.loosen recounts implies

/-- What a single run of a step has done. -/
theorem Recounts.of_leads {step : Step α} {post : Transcript → α → State → Prop}
    {start finish : State × Channel} {value : α} (recounts : Recounts allowed step start.1 post)
    (leads : Leads step start value finish) :
    ∃ transcript, Ends (step.run start.1) transcript (.ok (value, finish.1)) ∧
      post transcript value finish.1 := by
  obtain ⟨transcript, result, ends, -, holds⟩ := recounts
  obtain ⟨rfl, -⟩ := ends.of_returned leads
  exact ⟨transcript, ends, holds _ rfl⟩

theorem recounts_pure {value : α} {post : Transcript → α → State → Prop}
    (holds : post [] value state) : Recounts allowed (pure value) state post :=
  show Chronicles allowed _ (pure (value, state)) from chronicles_pure holds

theorem recounts_bind {step : Step α} {next : α → Step β} {post : Transcript → β → State → Prop}
    (first : Recounts allowed step state fun transcript value after =>
      Recounts allowed (next value) after fun rest => post (transcript ++ rest)) :
    Recounts allowed (step >>= next) state post := by
  rw [Recounts, StateT.run_bind]
  exact chronicles_bind first

theorem recounts_get {post : Transcript → State → State → Prop} (holds : post [] state state) :
    Recounts allowed get state post :=
  show Chronicles allowed _ (pure (state, state)) from chronicles_pure holds

theorem recounts_set {next : State} {post : Transcript → PUnit → State → Prop}
    (holds : post [] ⟨⟩ next) : Recounts allowed (set next) state post :=
  show Chronicles allowed _ (pure (PUnit.unit, next)) from chronicles_pure holds

theorem recounts_modify {change : State → State} {post : Transcript → PUnit → State → Prop}
    (holds : post [] ⟨⟩ (change state)) : Recounts allowed (modify change) state post :=
  show Chronicles allowed _ (pure (PUnit.unit, change state)) from chronicles_pure holds

theorem recounts_liftM {action : Reporting α} {post : Transcript → α → State → Prop}
    (chronicles : Chronicles allowed (fun transcript value => post transcript value state) action) :
    Recounts allowed (liftM action) state post := by
  change Chronicles allowed _ (action >>= fun value => pure (value, state))
  apply chronicles_bind
  apply chronicles.mono
  intro transcript value _ holds
  exact chronicles_pure (by rwa [List.append_nil])

theorem recounts_orFault {result : Except Fault α} {post : Transcript → α → State → Prop}
    (holds : ∀ value, result = .ok value → post [] value state) :
    Recounts allowed (orFault result) state post :=
  recounts_liftM (chronicles_ofExcept holds)

theorem recounts_reportAt {severity : Severity} {message systemId pointer : String}
    {post : Transcript → Unit → State → Prop}
    (isAllowed : allowed (.notify (noticeAt severity message systemId pointer)))
    (holds : post [.notify (noticeAt severity message systemId pointer)] () state) :
    Recounts allowed (reportAt severity message systemId pointer) state post :=
  recounts_liftM (chronicles_notify isAllowed holds)

theorem recounts_takeName {base source : String} {post : Transcript → String → State → Prop}
    (holds : post [] (freshName state.names base)
      (state.reserve (freshName state.names base) source)) :
    Recounts allowed (takeName base source) state post :=
  recounts_bind (recounts_get (recounts_bind (recounts_set (recounts_pure holds))))

theorem recounts_buildEnum {name systemId : String} {package : Json} {info : NodeInfo}
    {values : List Json} {valueType : String} {memberNames : Json}
    {post : Transcript → PUnit → State → Prop}
    (holds : ∀ members, membersOf memberNames values = .ok members →
      post [] ⟨⟩ (state.withEnum
        { name, package, valueType, members, description := info.description
          source := systemId ++ info.pointer })) :
    Recounts allowed (buildEnum name systemId package info values valueType memberNames) state
      post :=
  recounts_bind (recounts_orFault fun members built => recounts_modify (holds members built))

end Rules

/-! ## What is made on the way -/

/-- The classes that a run has made stand behind those that were there, and they have been announced
in this order. -/
structure Unfolds (transcript : Transcript) (before after : State) (made : List ClassDefinition) :
    Prop where
  declarations_eq : after.declarations = before.declarations
  classes_eq : after.classes = before.classes ++ made
  enums : before.enums <+: after.enums
  announced : List.Forall₂ Announces transcript.infos made

theorem unfolds_nothing (state : State) : Unfolds [] state state [] :=
  ⟨rfl, (List.append_nil _).symm, List.prefix_refl _, .nil⟩

theorem Unfolds.trans {first rest : Transcript} {before middle after : State}
    {made others : List ClassDefinition} (unfolds : Unfolds first before middle made)
    (unfoldsOn : Unfolds rest middle after others) :
    Unfolds (first ++ rest) before after (made ++ others) where
  declarations_eq := unfoldsOn.declarations_eq.trans unfolds.declarations_eq
  classes_eq := by rw [unfoldsOn.classes_eq, unfolds.classes_eq, List.append_assoc]
  enums := unfolds.enums.trans unfoldsOn.enums
  announced := by
    rw [Transcript.infos_append]
    exact List.rel_append unfolds.announced unfoldsOn.announced

/-- What is reported without being an info announces nothing. -/
theorem unfolds_notice {diagnostic : Diagnostic} (notInfo : diagnostic.severity ≠ .info)
    (state : State) : Unfolds [.notify diagnostic] state state [] := by
  refine ⟨rfl, (List.append_nil _).symm, List.prefix_refl _, ?_⟩
  simp [Transcript.infos, Act.isInfo, notInfo]

theorem Unfolds.reserve {transcript : Transcript} {before after : State} {name source : String}
    {made : List ClassDefinition}
    (unfolds : Unfolds transcript (before.reserve name source) after made) :
    Unfolds transcript before after made :=
  ⟨unfolds.declarations_eq, unfolds.classes_eq, unfolds.enums, unfolds.announced⟩

theorem unfolds_withEnum (state : State) (definition : EnumDefinition) :
    Unfolds [] state (state.withEnum definition) [] :=
  ⟨rfl, (List.append_nil _).symm, List.prefix_append _ _, .nil⟩

/-- A class is announced before what is made while it is under construction, and stands before
it. -/
theorem Unfolds.withClass {transcript : Transcript} {before after : State}
    {made : List ClassDefinition} (unfolds : Unfolds transcript before after made)
    (definition : ClassDefinition) {systemId pointer : String}
    (source : definition.source = systemId ++ pointer) :
    Unfolds (.notify (announcement definition.name systemId pointer) :: transcript) before
      (after.withClass before.classes.length definition) (definition :: made) where
  declarations_eq := unfolds.declarations_eq
  classes_eq := by rw [State.withClass, unfolds.classes_eq, insertIdx_behind]
  enums := unfolds.enums
  announced := .cons ⟨systemId, pointer, rfl, source⟩ unfolds.announced

/-- Whether a step, wherever it begins, does nothing but report, and makes classes in the order in
which it announces them. -/
def Unfolding {α : Type} (step : Step α) : Prop :=
  ∀ state, Recounts Act.IsNotice step state fun transcript _ after =>
    ∃ made, Unfolds transcript state after made

section Rules

variable {α β : Type}

theorem unfolding_pure (value : α) : Unfolding (pure value) :=
  fun state => recounts_pure ⟨[], unfolds_nothing state⟩

theorem unfolding_bind {step : Step α} {next : α → Step β} (first : Unfolding step)
    (rest : ∀ value, Unfolding (next value)) : Unfolding (step >>= next) := by
  intro state
  apply recounts_bind
  apply (first state).mono
  rintro transcript value middle ⟨made, unfolds⟩
  apply (rest value middle).mono
  rintro further result after ⟨others, unfoldsOn⟩
  exact ⟨made ++ others, unfolds.trans unfoldsOn⟩

theorem unfolding_orFault (result : Except Fault α) : Unfolding (orFault result) :=
  fun state => recounts_orFault fun _ _ => ⟨[], unfolds_nothing state⟩

theorem unfolding_error (message systemId pointer : String) :
    Unfolding (reportAt .error message systemId pointer) :=
  fun state => recounts_reportAt trivial ⟨[], unfolds_notice (by simp [noticeAt]) state⟩

theorem unfolding_get {next : State → Step β} (rest : ∀ state, Unfolding (next state)) :
    Unfolding (get >>= next) :=
  fun state => recounts_bind (recounts_get (rest state state))

/-- Whatever is made while a class is under construction comes behind the class. -/
theorem recounts_buildClass {name systemId : String} {package : Json} {info : NodeInfo}
    {base : Step (Option String)} {fields : Step (List FieldDefinition)} (ofBase : Unfolding base)
    (ofFields : Unfolding fields) (state : State) :
    Recounts Act.IsNotice (buildClass name systemId package info base fields) state
      fun transcript _ after => ∃ rest definition inside,
        transcript = .notify (announcement name systemId info.pointer) :: rest ∧
          definition.name = name ∧ definition.source = systemId ++ info.pointer ∧
            Unfolds transcript state after (definition :: inside) := by
  apply recounts_bind
  apply recounts_get
  apply recounts_bind
  apply recounts_reportAt trivial
  apply recounts_bind
  apply (ofBase state).mono
  rintro first base middle ⟨made, unfolds⟩
  apply recounts_bind
  apply (ofFields middle).mono
  rintro further fields after ⟨others, unfoldsOn⟩
  apply recounts_modify
  let definition : ClassDefinition :=
    { name, package, base, fields, description := info.description
      source := systemId ++ info.pointer }
  have hasSource : definition.source = systemId ++ info.pointer := rfl
  refine ⟨first ++ further, definition, made ++ others, ?_, rfl, hasSource, ?_⟩
  · simp [announcement]
  · change Unfolds (_ :: (first ++ (further ++ []))) _ _ _
    rw [List.append_nil]
    exact (unfolds.trans unfoldsOn).withClass definition hasSource

end Rules

/-! ## Translating -/

section Translation

variable {setting : Setting} {follow : List Key → Declaration → Step TypeExpr}
  {resolving : List Key}

/-- Whether following an alias makes classes in the order in which it announces them. -/
def UnfoldingAliases (follow : List Key → Declaration → Step TypeExpr) : Prop :=
  ∀ resolving declaration, Unfolding (follow resolving declaration)

theorem unfolding_reference (aliases : UnfoldingAliases follow) (site : Site)
    (reference : Reference) :
    Unfolding (translateReference setting follow resolving site reference) := by
  have unknown (message : String) :
      Unfolding (do
        reportAt .error message site.systemId reference.info.pointer
        return TypeExpr.anything) :=
    unfolding_bind (unfolding_error _ _ _) fun _ => unfolding_pure _
  apply unfolding_bind (unfolding_orFault _)
  intro target?
  cases target? with
  | none => exact unknown _
  | some target =>
      apply unfolding_get
      intro state
      split
      · exact unfolding_pure _
      · split
        · exact unfolding_pure _
        · exact unfolding_pure _
        · split
          · exact unknown _
          · exact aliases _ _

theorem unfolding_base (aliases : UnfoldingAliases follow) (site : Site) (pointer : String)
    (base : Option Reference) :
    Unfolding (translateBase setting follow resolving site pointer base) := by
  cases base with
  | none => exact unfolding_pure none
  | some reference =>
      apply unfolding_bind (unfolding_reference aliases _ reference)
      intro type
      split
      · exact unfolding_pure _
      · exact unfolding_bind (unfolding_error _ _ _) fun _ => unfolding_pure none

theorem unfolding_primitive (site : Site) (info : NodeInfo) (type : Json) :
    Unfolding (primitiveType site info type) := by
  rw [primitiveType]
  split
  · exact unfolding_pure _
  · apply unfolding_bind (unfolding_orFault _)
    intro key
    split
    · exact unfolding_pure _
    · exact unfolding_bind (unfolding_error _ _ _) fun _ => unfolding_pure _

/-- Whether a step begins a class for a place and yields its type: the class comes before all that
is made while it is under construction. -/
def MakesClass (step : Step TypeExpr) (source : String) : Prop :=
  ∀ state, Recounts Act.IsNotice step state fun transcript type after =>
    ∃ definition inside, type = .instanceOf definition.name ∧ definition.source = source ∧
      Unfolds transcript state after (definition :: inside)

theorem MakesClass.unfolding {step : Step TypeExpr} {source : String}
    (makes : MakesClass step source) : Unfolding step := by
  intro state
  apply (makes state).mono
  rintro transcript type after ⟨definition, inside, -, -, unfolds⟩
  exact ⟨definition :: inside, unfolds⟩

theorem makesClass_inline {site : Site} {info : NodeInfo} {base : Step (Option String)}
    {fields : String → Step (List FieldDefinition)} (ofBase : Unfolding base)
    (ofFields : ∀ name, Unfolding (fields name)) :
    MakesClass (do
      let name ← takeName site.baseName (site.systemId ++ info.pointer)
      buildClass name site.systemId site.package info base (fields name)
      return .instanceOf name) (site.systemId ++ info.pointer) := by
  intro state
  apply recounts_bind
  apply recounts_takeName
  apply recounts_bind
  apply (recounts_buildClass ofBase (ofFields _) _).mono
  rintro transcript _ after ⟨rest, definition, inside, -, hasName, hasSource, unfolds⟩
  apply recounts_pure
  refine ⟨definition, inside, by rw [hasName], hasSource, ?_⟩
  simpa using unfolds.reserve

theorem unfolding_translation (aliases : UnfoldingAliases follow) :
    (∀ site node, Unfolding (translateNode setting follow resolving site node)) ∧
    (∀ site nodes, Unfolding (translateNodes setting follow resolving site nodes)) ∧
    ∀ site properties,
      Unfolding (translateProperties setting follow resolving site properties) := by
  refine translateNode.mutual_induct setting _ _ _ ?ref ?primitive ?const ?enum ?object ?allOf
    ?arrayOfAnything ?array ?tuple ?union ?noNode ?nextNode ?noProperty ?ignored ?nextProperty
  case ref =>
    intro site reference
    rw [translateNode]
    exact unfolding_reference aliases site reference
  case primitive =>
    intro site info type
    rw [translateNode]
    exact unfolding_primitive site info type
  case const =>
    intro site info value type
    rw [translateNode]
    exact unfolding_pure _
  case enum =>
    intro site info values valueType memberNames state
    rw [translateNode]
    apply recounts_bind
    apply recounts_takeName
    apply recounts_bind
    apply recounts_buildEnum
    intro members built
    exact recounts_pure ⟨[], (unfolds_withEnum _ _).reserve⟩
  case object =>
    intro site body ofProperties
    rw [translateNode]
    exact (makesClass_inline (unfolding_pure none) ofProperties).unfolding
  case allOf =>
    intro site info base extension ofExtension
    rw [translateNode]
    apply (makesClass_inline (unfolding_base aliases site info.pointer base) _).unfolding
    intro name
    cases extension with
    | none => exact unfolding_pure []
    | some body => exact ofExtension name
  case arrayOfAnything =>
    intro site info minItems
    rw [translateNode]
    exact unfolding_pure _
  case array =>
    intro site info item minItems ofItem
    rw [translateNode]
    exact unfolding_bind ofItem fun _ => unfolding_pure _
  case tuple =>
    intro site info items minItems ofItems
    rw [translateNode]
    exact unfolding_bind ofItems fun _ => unfolding_pure _
  case union =>
    intro site info keyword variants ofVariants
    rw [translateNode]
    exact unfolding_bind ofVariants fun _ => unfolding_pure _
  case noNode =>
    intro site
    rw [translateNodes]
    exact unfolding_pure []
  case nextNode =>
    intro site node rest ofNode ofRest
    rw [translateNodes]
    exact unfolding_bind ofNode fun _ => unfolding_bind ofRest fun _ => unfolding_pure _
  case noProperty =>
    intro site
    rw [translateProperties]
    exact unfolding_pure []
  case ignored =>
    intro site property rest ignored ofRest
    rw [translateProperties, if_pos ignored]
    exact ofRest
  case nextProperty =>
    intro site property rest notIgnored ofProperty ofRest
    rw [translateProperties, if_neg notIgnored]
    exact unfolding_bind ofProperty fun _ => unfolding_bind ofRest fun _ => unfolding_pure _

theorem unfoldingAliases_followAlias (setting : Setting) (depth : Nat) :
    UnfoldingAliases (followAlias setting depth) := by
  induction depth with
  | zero => exact fun _ _ => unfolding_pure _
  | succ depth ih =>
      intro resolving declaration
      exact (unfolding_translation ih).1 (declaration.site setting) declaration.node

/-- An object that is translated becomes a class, which comes before all that is made while it is
under construction. -/
theorem makesClass_translateNode (depth : Nat) (site : Site) {node : Node}
    (isObject : node.isObject = true) :
    MakesClass (translateNode setting (followAlias setting depth) resolving site node)
      (site.systemId ++ node.pointer) := by
  have aliases := unfoldingAliases_followAlias setting depth
  have ofProperties (site : Site) (properties : List (Property Node)) :
      Unfolding (translateProperties setting (followAlias setting depth) resolving site
        properties) :=
    (unfolding_translation aliases).2.2 site properties
  cases node with
  | object body =>
      rw [translateNode]
      exact makesClass_inline (unfolding_pure none) fun name => ofProperties _ body.properties
  | allOf info base extension =>
      rw [translateNode]
      apply makesClass_inline (unfolding_base aliases site info.pointer base)
      intro name
      cases extension with
      | none => exact unfolding_pure []
      | some body => exact ofProperties _ body.properties
  | _ => simp [Node.isObject] at isObject

end Translation

end Analysis

end Typeloom
