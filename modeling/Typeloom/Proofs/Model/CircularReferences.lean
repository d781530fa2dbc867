import Mathlib
import Typeloom.Proofs.Model.AliasCycles

/-!
# Circular references are reported

An analysis reports a circular reference only if a cycle of aliases can be reached from the body of
a declared class, and it does report one then unless it is stopped.
-/

namespace Typeloom

/-- Whether an event tells of a circular reference. -/
def Event.isCircle : Event → Bool
  | .diagnosed .error diagnostic => Text.beginsWith diagnostic.message "circular reference '"
  | _ => false

/-- How often the listener has been told of a circular reference. -/
def Channel.circles (channel : Channel) : Nat :=
  channel.events.countP Event.isCircle

theorem Channel.circles_notify (channel : Channel) (diagnostic : Diagnostic)
    (noCircle : Event.isCircle (.diagnosed diagnostic.severity diagnostic) = false) :
    (channel.notify diagnostic.severity diagnostic).circles = channel.circles := by
  unfold notify
  dsimp only
  split <;> simp [circles, tell, List.countP_append, noCircle]

theorem Channel.circles_notify_circle (channel : Channel) (diagnostic : Diagnostic)
    (isCircle : Event.isCircle (.diagnosed .error diagnostic) = true) :
    (channel.notify .error diagnostic).circles = channel.circles + 1 := by
  rw [Channel.notify_of_isError rfl]
  simp [circles, List.countP_append, isCircle]

namespace Analysis

open Reporting

/-- Whether a step tells of a circular reference exactly if a statement holds, provided that it is
not stopped, and only if it holds in any case.  The declarations stay as they are. -/
def Tells {α : Type} (declared : Table Key Declaration) (step : Step α) (statement : Prop) :
    Prop :=
  ∀ ⦃state⦄ channel, state.declarations = declared →
    ∀ ⦃result after⦄, onChannel (step.run state) channel = (result, after) →
      channel.circles ≤ after.circles ∧ (channel.circles < after.circles → statement) ∧
        ∀ value last, result = .ok (value, last) → last.declarations = declared ∧
          (statement → channel.circles < after.circles)

section Rules

variable {α β : Type} {declared : Table Key Declaration} {left right : Prop}

theorem Tells.congr {step : Step α} (tells : Tells declared step left) (same : left ↔ right) :
    Tells declared step right :=
  propext same ▸ tells

theorem tells_pure (value : α) : Tells declared (pure value) False := by
  intro state channel same result after ran
  cases ran
  refine ⟨Nat.le_refl _, Nat.lt_irrefl _, ?_⟩
  rintro _ _ ⟨⟩
  exact ⟨same, False.elim⟩

theorem tells_bind {step : Step α} {next : α → Step β} (first : Tells declared step left)
    (rest : ∀ value, Tells declared (next value) right) :
    Tells declared (step >>= next) (left ∨ right) := by
  intro state channel same result after ran
  rw [StateT.run_bind, onChannel_bind] at ran
  rcases began : onChannel (step.run state) channel with ⟨stop | ⟨value, middle⟩, between⟩
  · rw [began] at ran
    cases ran
    obtain ⟨grows, onlyIf, -⟩ := first channel same began
    exact ⟨grows, fun more => .inl (onlyIf more), by simp⟩
  · rw [began] at ran
    obtain ⟨grows, onlyIf, inTheEnd⟩ := first channel same began
    obtain ⟨stillSame, told⟩ := inTheEnd value middle rfl
    obtain ⟨growsOn, onlyIfOn, inTheEndOn⟩ := rest value between stillSame ran
    refine ⟨Nat.le_trans grows growsOn, fun more => ?_, fun result last isOk => ?_⟩
    · by_cases early : channel.circles < between.circles
      · exact .inl (onlyIf early)
      · exact .inr (onlyIfOn (by omega))
    · obtain ⟨same, toldOn⟩ := inTheEndOn result last isOk
      refine ⟨same, ?_⟩
      rintro (holds | holds)
      · exact Nat.lt_of_lt_of_le (told holds) growsOn
      · exact Nat.lt_of_le_of_lt grows (toldOn holds)

theorem tells_get {next : State → Step β}
    (rest : ∀ state : State, state.declarations = declared → Tells declared (next state) right) :
    Tells declared (get >>= next) right :=
  fun state channel same _ _ ran => rest state same channel same ran

/-- A step that does not lengthen the list of events tells of nothing. -/
theorem tells_nothing {step : Step α}
    (quiet : ∀ ⦃state channel result after⦄, onChannel (step.run state) channel = (result, after) →
      after.circles = channel.circles ∧
        ∀ value last, result = .ok (value, last) → last.declarations = state.declarations) :
    Tells declared step False := by
  intro state channel same result after ran
  obtain ⟨sameCircles, keeps⟩ := quiet ran
  refine ⟨Nat.le_of_eq sameCircles.symm, fun more => by omega, fun value last isOk => ?_⟩
  exact ⟨(keeps value last isOk).trans same, False.elim⟩

theorem tells_modify {update : State → State}
    (keeps : ∀ state, (update state).declarations = state.declarations) :
    Tells declared (modify update) False := by
  refine tells_nothing fun state channel result after ran => ?_
  cases ran
  refine ⟨rfl, ?_⟩
  rintro _ _ ⟨⟩
  exact keeps state

theorem tells_orFault (result : Except Fault α) : Tells declared (orFault result) False := by
  refine tells_nothing fun state channel outcome after ran => ?_
  cases result with
  | ok value =>
      cases ran
      exact ⟨rfl, by rintro _ _ ⟨⟩; rfl⟩
  | error fault =>
      cases ran
      exact ⟨rfl, by rintro _ _ ⟨⟩⟩

theorem tells_poll : Tells declared (liftM poll) False := by
  refine tells_nothing fun state channel result after ran => ?_
  change onChannel (poll >>= fun value => pure (value, state)) channel = _ at ran
  rw [onChannel_bind, onChannel_poll] at ran
  cases cancels : channel.poll.1 with
  | true =>
      rw [cancels] at ran
      cases ran
      exact ⟨rfl, by rintro _ _ ⟨⟩⟩
  | false =>
      rw [cancels] at ran
      cases ran
      refine ⟨rfl, ?_⟩
      rintro _ _ ⟨⟩
      rfl

theorem tells_reportAt {severity : Severity} {message systemId pointer : String}
    (noCircle : ∀ diagnostic : Diagnostic, diagnostic.message = message →
      Event.isCircle (.diagnosed severity diagnostic) = false) :
    Tells declared (reportAt severity message systemId pointer) False := by
  refine tells_nothing fun state channel result after ran => ?_
  cases ran
  refine ⟨Channel.circles_notify _ _ (noCircle _ rfl), ?_⟩
  rintro _ _ ⟨⟩
  rfl

theorem tells_info {message systemId pointer : String} :
    Tells declared (reportAt .info message systemId pointer) False :=
  tells_reportAt fun _ _ => rfl

theorem tells_error {message systemId pointer : String}
    (differs : Text.beginsWith message "circular reference '" = false) :
    Tells declared (reportAt .error message systemId pointer) False :=
  tells_reportAt fun _ isMessage => by rw [Event.isCircle, isMessage, differs]

theorem tells_circle (shown systemId pointer : String) :
    Tells declared (reportAt .error ("circular reference '" ++ shown ++ "'") systemId pointer)
      True := by
  intro state channel same result after ran
  cases ran
  have told : channel.circles < (channel.notify .error
      { severity := .error, message := "circular reference '" ++ shown ++ "'"
        systemId := some systemId, location := some pointer }).circles := by
    rw [Channel.circles_notify_circle _ _ (by simp [Event.isCircle, Text.beginsWith])]
    exact Nat.lt_succ_self _
  refine ⟨Nat.le_of_lt told, fun _ => trivial, ?_⟩
  rintro _ _ ⟨⟩
  exact ⟨same, fun _ => told⟩

theorem tells_takeName (base source : String) : Tells declared (takeName base source) False := by
  refine tells_nothing fun state channel result after ran => ?_
  cases ran
  refine ⟨rfl, ?_⟩
  rintro _ _ ⟨⟩
  rfl

theorem tells_buildEnum (name systemId : String) (package : Json) (info : NodeInfo)
    (values : List Json) (valueType : String) (memberNames : Json) :
    Tells declared (buildEnum name systemId package info values valueType memberNames) False :=
  Tells.congr (tells_bind (tells_orFault _) fun _ => tells_modify fun _ => rfl) (or_self_iff)

theorem tells_buildClass (name systemId : String) (package : Json) (info : NodeInfo)
    {base : Step (Option String)} {fields : Step (List FieldDefinition)}
    (ofBase : Tells declared base left) (ofFields : Tells declared fields right) :
    Tells declared (buildClass name systemId package info base fields) (left ∨ right) := by
  refine tells_get fun _ _ => Tells.congr (tells_bind tells_info fun _ => tells_bind ofBase fun _ =>
    tells_bind ofFields fun _ => tells_modify fun _ => rfl) ?_
  rw [or_false, false_or]

theorem tells_fault (fault : Fault) (next : α → Step β) (statement : Prop) :
    Tells declared (orFault (.error fault) >>= next) statement := by
  intro state channel same result after ran
  cases ran
  exact ⟨Nat.le_refl _, fun more => absurd more (Nat.lt_irrefl _), by rintro _ _ ⟨⟩⟩

theorem tells_value {value : α} {next : α → Step β} (tells : Tells declared (next value) right) :
    Tells declared (orFault (.ok value) >>= next) right :=
  tells

end Rules

section Translation

variable {setting : Setting} {declared : Table Key Declaration} {resolving : List Key}
  {follow : List Key → Declaration → Step TypeExpr}

/-- Whether following an alias that is not being followed yet tells of a circular reference if one
of its references leads back. -/
def TellsAliases (setting : Setting) (declared : Table Key Declaration) (resolving : List Key)
    (follow : List Key → Declaration → Step TypeExpr) : Prop :=
  ∀ ⦃key declaration⦄, Table.get? declared key = some declaration → key ∉ resolving →
    Tells declared (follow (resolving ++ [key]) declaration)
      (∃ inner ∈ declaration.references setting,
        Meets setting declared (resolving ++ [key]) declaration.document inner)

theorem tells_reference (aliases : TellsAliases setting declared resolving follow) (site : Site)
    (reference : Reference) :
    Tells declared (translateReference setting follow resolving site reference)
      (Meets setting declared resolving site.document reference) := by
  unfold translateReference
  dsimp only
  cases resolves : setting.library.resolve site.document reference with
  | error fault => exact tells_fault ..
  | ok target? =>
      refine tells_value ?_
      cases target? with
      | none =>
          refine Tells.congr (tells_bind (tells_error (by simp [Text.beginsWith, List.isPrefixOf]))
            fun _ => tells_pure _) (iff_of_false (by simp) (not_meets resolves (by simp)))
      | some target =>
          refine tells_get fun state same => ?_
          rw [same]
          cases isDeclared : Table.get? declared (target.document.systemId, target.key) with
          | none =>
              exact Tells.congr (tells_pure _)
                (iff_of_false id (not_meets resolves (by simp [isDeclared])))
          | some declaration =>
              dsimp only
              cases isKind : declaration.kind with
              | classDefinition | enumDefinition =>
                  exact Tells.congr (tells_pure _)
                    (iff_of_false id (not_meets resolves (by simp [isDeclared, isKind])))
              | «alias» =>
                  have leads : LeadsTo setting declared site.document reference
                      (target.document.systemId, target.key) declaration :=
                    ⟨⟨target, resolves, rfl⟩, isDeclared, isKind⟩
                  by_cases isFollowed : (target.document.systemId, target.key) ∈ resolving
                  · simp only [List.contains_eq_mem, isFollowed, decide_true, if_true]
                    exact Tells.congr (tells_bind (tells_circle ..) fun _ => tells_pure _)
                      (iff_of_true (.inl trivial) (.circle leads isFollowed))
                  · simp only [List.contains_eq_mem, isFollowed, decide_false, Bool.false_eq_true,
                      if_false]
                    exact Tells.congr (aliases isDeclared isFollowed)
                      (leads.meets_iff isFollowed).symm

theorem tells_base (aliases : TellsAliases setting declared resolving follow) (site : Site)
    (pointer : String) (base : Option Reference) :
    Tells declared (translateBase setting follow resolving site pointer base)
      (∃ reference ∈ base.toList, Meets setting declared resolving site.document reference) := by
  cases base with
  | none => exact Tells.congr (tells_pure none) (by simp)
  | some reference =>
      refine Tells.congr (tells_bind (tells_reference aliases _ reference) fun type =>
        show Tells declared _ False from ?_) (by simp)
      split
      · exact tells_pure _
      · exact Tells.congr (tells_bind (tells_error (by simp [Text.beginsWith, List.isPrefixOf]))
          fun _ => tells_pure none) or_self_iff

theorem tells_primitive (site : Site) (info : NodeInfo) (type : Json) :
    Tells declared (primitiveType site info type) False := by
  unfold primitiveType
  split
  · exact tells_pure _
  · refine Tells.congr (tells_bind (tells_orFault _) fun key =>
      show Tells declared _ False from ?_) or_self_iff
    split
    · exact tells_pure _
    · exact Tells.congr (tells_bind (tells_error (by simp [Text.beginsWith, List.isPrefixOf]))
        fun _ => tells_pure _) or_self_iff

/-- Translating tells of a circular reference if one of the references that are translated leads
back to an alias that is being followed. -/
theorem tells_translation (aliases : TellsAliases setting declared resolving follow) :
    (∀ site node, Tells declared (translateNode setting follow resolving site node)
      (∃ reference ∈ node.translatedReferences setting.request.ignoredFields,
        Meets setting declared resolving site.document reference)) ∧
    (∀ site nodes, Tells declared (translateNodes setting follow resolving site nodes)
      (∃ reference ∈ Node.translatedReferencesOfAll setting.request.ignoredFields nodes,
        Meets setting declared resolving site.document reference)) ∧
    ∀ site properties, Tells declared
      (translateProperties setting follow resolving site properties)
      (∃ reference ∈
        Node.translatedReferencesOfProperties setting.request.ignoredFields properties,
        Meets setting declared resolving site.document reference) := by
  refine translateNode.mutual_induct setting _ _ _ ?ref ?primitive ?const ?enum ?object ?allOf
    ?arrayOfAnything ?array ?tuple ?union ?noNode ?nextNode ?noProperty ?ignored ?nextProperty
  case ref =>
    intro site reference
    rw [translateNode, Node.translatedReferences]
    exact Tells.congr (tells_reference aliases site reference) (by simp)
  case primitive =>
    intro site info type
    rw [translateNode, Node.translatedReferences]
    exact Tells.congr (tells_primitive site info type) (by simp)
  case const =>
    intro site info value type
    rw [translateNode, Node.translatedReferences]
    exact Tells.congr (tells_pure _) (by simp)
  case enum =>
    intro site info values valueType memberNames
    rw [translateNode, Node.translatedReferences]
    exact Tells.congr (tells_bind (tells_takeName ..) fun _ => tells_bind (tells_buildEnum ..)
      fun _ => tells_pure _) (by simp)
  case object =>
    intro site body fields
    have ofFields (name : String) : Tells declared
        (translateProperties setting follow resolving { site with owner := name } body.properties)
        (∃ reference ∈
          Node.translatedReferencesOfProperties setting.request.ignoredFields body.properties,
          Meets setting declared resolving site.document reference) := fields name
    rw [translateNode, Node.translatedReferences]
    exact Tells.congr (tells_bind (tells_takeName ..) fun name => tells_bind
      (tells_buildClass _ _ _ _ (tells_pure none) (ofFields name)) fun _ => tells_pure _) (by simp)
  case allOf =>
    intro site info base extension fields
    cases extension with
    | none =>
        rw [translateNode, Node.translatedReferences]
        exact Tells.congr (tells_bind (tells_takeName ..) fun name => tells_bind
          (tells_buildClass _ _ _ _ (tells_base aliases ..) (tells_pure [])) fun _ => tells_pure _)
            (by simp)
    | some body =>
        have ofFields (name : String) : Tells declared
            (translateProperties setting follow resolving { site with owner := name }
              body.properties)
            (∃ reference ∈
              Node.translatedReferencesOfProperties setting.request.ignoredFields body.properties,
              Meets setting declared resolving site.document reference) := fields name
        rw [translateNode, Node.translatedReferences]
        refine Tells.congr (tells_bind (tells_takeName ..) fun name => tells_bind
          (tells_buildClass _ _ _ _ (tells_base aliases ..) (ofFields name)) fun _ => tells_pure _)
            ?_
        rw [false_or, or_false]
        simp only [List.mem_append, or_and_right, exists_or]
  case arrayOfAnything =>
    intro site info minItems
    rw [translateNode, Node.translatedReferences]
    exact Tells.congr (tells_pure _) (by simp)
  case array =>
    intro site info item minItems ofItem
    rw [translateNode, Node.translatedReferences]
    exact Tells.congr (tells_bind ofItem fun _ => tells_pure _) (Iff.of_eq (or_false _))
  case tuple =>
    intro site info items minItems ofItems
    rw [translateNode, Node.translatedReferences]
    exact Tells.congr (tells_bind ofItems fun _ => tells_pure _) (Iff.of_eq (or_false _))
  case union =>
    intro site info keyword variants ofVariants
    rw [translateNode, Node.translatedReferences]
    exact Tells.congr (tells_bind ofVariants fun _ => tells_pure _) (Iff.of_eq (or_false _))
  case noNode =>
    intro site
    rw [translateNodes, Node.translatedReferencesOfAll]
    exact Tells.congr (tells_pure []) (by simp)
  case nextNode =>
    intro site node rest ofNode ofRest
    rw [translateNodes, Node.translatedReferencesOfAll]
    refine Tells.congr (tells_bind ofNode fun _ => tells_bind ofRest fun _ => tells_pure _) ?_
    simp only [or_false, List.mem_append, or_and_right, exists_or]
  case noProperty =>
    intro site
    rw [translateProperties, Node.translatedReferencesOfProperties]
    exact Tells.congr (tells_pure []) (by simp)
  case ignored =>
    intro site property rest ignored ofRest
    rw [translateProperties, Node.translatedReferencesOfProperties, if_pos ignored, if_pos ignored]
    exact ofRest
  case nextProperty =>
    intro site property rest notIgnored ofType ofRest
    rw [translateProperties, Node.translatedReferencesOfProperties, if_neg notIgnored,
      if_neg notIgnored]
    refine Tells.congr (tells_bind ofType fun _ => tells_bind ofRest fun _ => tells_pure _) ?_
    simp only [or_false, List.mem_append, or_and_right, exists_or]

end Translation

section Stages

variable {setting : Setting} {declared : Table Key Declaration}

theorem tellsAliases {depth : Nat} {resolving : List Key}
    (guarded : Guarded declared depth resolving) :
    TellsAliases setting declared resolving (followAlias setting depth) := by
  induction depth generalizing resolving with
  | zero =>
      intro key declaration isDeclared unknown
      obtain ⟨_, isZero, -⟩ := guarded.next isDeclared unknown
      cases isZero
  | succ depth ih =>
      intro key declaration isDeclared unknown
      obtain ⟨_, same, guardedOn⟩ := guarded.next isDeclared unknown
      cases same
      exact (tells_translation (ih guardedOn)).1 (declaration.site setting) declaration.node

/-- Whether a declared class has a reference that leads to an alias from which a cycle can be
reached. -/
def Declaration.ReachesCycle (setting : Setting) (declared : Table Key Declaration)
    (declaration : Declaration) : Prop :=
  declaration.kind = .classDefinition ∧ ∃ reference ∈ declaration.references setting,
    Meets setting declared [] declaration.document reference

theorem tells_buildDeclaration (declaration : Declaration) :
    Tells declared (buildDeclaration setting (declared.length + 1) declaration)
      (declaration.ReachesCycle setting declared) := by
  have aliases : TellsAliases setting declared [] (followAlias setting (declared.length + 1)) :=
    tellsAliases (guarded_nil declared)
  have properties (properties : List (Property Node)) :=
    (tells_translation aliases).2.2 (declaration.site setting) properties
  refine Tells.congr (tells_bind tells_poll fun _ =>
    show Tells declared _ (declaration.ReachesCycle setting declared) from ?_)
      (Iff.of_eq (false_or _))
  unfold Declaration.ReachesCycle Declaration.references Declaration.kind
  cases declaration.node with
  | object body =>
      rw [Node.translatedReferences]
      exact Tells.congr (tells_buildClass _ _ _ _ (tells_pure none) (properties body.properties))
        (by simp [Declaration.site])
  | allOf info base extension =>
      cases extension with
      | none =>
          rw [Node.translatedReferences]
          exact Tells.congr (tells_buildClass _ _ _ _ (tells_base aliases ..) (tells_pure []))
            (by simp [Declaration.site])
      | some body =>
          rw [Node.translatedReferences]
          refine Tells.congr (tells_buildClass _ _ _ _ (tells_base aliases ..)
            (properties body.properties)) ?_
          simp [Declaration.site, or_and_right, exists_or]
  | enum info values valueType memberNames =>
      exact Tells.congr (tells_buildEnum ..) (by simp)
  | _ => exact Tells.congr tells_info (by simp)

theorem tells_forM {items : List Declaration} {step : Declaration → Step PUnit}
    {statement : Declaration → Prop}
    (tells : ∀ item, Tells declared (step item) (statement item)) :
    Tells declared (items.forM step) (∃ item ∈ items, statement item) := by
  induction items with
  | nil => exact Tells.congr (tells_pure PUnit.unit) (by simp)
  | cons item rest ih =>
      exact Tells.congr (tells_bind (tells item) fun _ => ih) (by simp)

theorem tells_buildAll (setting : Setting) (declared : Table Key Declaration) :
    Tells declared (buildAll setting declared) (HasReachableCycle setting declared) := by
  have tells : Tells declared (buildAll setting declared)
      (∃ declaration ∈ Table.values declared, declaration.ReachesCycle setting declared) := by
    rw [buildAll, Table.values, List.length_map]
    exact tells_forM tells_buildDeclaration
  refine Tells.congr tells ?_
  simp only [HasReachableCycle, Declaration.ReachesCycle, meets_iff]

end Stages

/-- The second pass ends, with everything built or with a stop.  In either case no alias is being
followed any more, none has been given up because too many others were followed, and a circular
reference has been reported only if a cycle of aliases can be reached from the body of a declared
class.  If nothing stops the pass, one has been reported in just that case. -/
theorem circles_of_buildAll (setting : Setting) (state : State) (channel : Channel) :
    let pass := onChannel ((buildAll setting state.declarations).run state) channel
    (∃ requests translations, (tracedBuildAll setting state.declarations).outcome state {} channel =
        (pass.1, { requests, translations, following := [], exhausted := false }, pass.2)) ∧
      (channel.circles < pass.2.circles → HasReachableCycle setting state.declarations) ∧
      ∀ last, pass.1 = .ok ((), last) →
        (channel.circles < pass.2.circles ↔ HasReachableCycle setting state.declarations) := by
  intro pass
  obtain ⟨requests, translations, isOutcome, -⟩ :=
    traces_buildAll setting state.declarations channel rfl (Eq.refl (Trace.following {}))
  obtain ⟨-, onlyIf, inTheEnd⟩ :=
    tells_buildAll setting state.declarations channel (Eq.refl state.declarations) rfl
  exact ⟨⟨requests, translations, isOutcome⟩, onlyIf,
    fun last isOk => ⟨onlyIf, (inTheEnd () last isOk).2⟩⟩

/-- A reference to the list of the following library. -/
def listReference (pointer : String) : Reference where
  info := { pointer }
  target := .text "#/definitions/List"

/-- A page with a link to no address at all and a list of such lists. -/
def brokenLink : Library where
  documents :=
    [{ systemId := "file:///work/doc.json"
       rootName := "doc"
       root := none
       definitions :=
         [{ name := "Page"
            pointer := "#/definitions/Page"
            body := .object
              { info := { pointer := "#/definitions/Page" }
                properties :=
                  [{ info := { pointer := "#/definitions/Page/properties/link" }
                     name := "link"
                     type := .ref
                       { info := { pointer := "#/definitions/Page/properties/link" }
                         target := .text "http://[" }
                     required := true
                     default? := none },
                   { info := { pointer := "#/definitions/Page/properties/list" }
                     name := "list"
                     type := .ref (listReference "#/definitions/Page/properties/list")
                     required := true
                     default? := none }] } },
          { name := "List"
            pointer := "#/definitions/List"
            body := .array { pointer := "#/definitions/List" }
              (some (.ref (listReference "#/definitions/List/items"))) .null }]
       package := .null }]

/-- What the first pass declares of the page and the list. -/
def brokenLinkState : State where
  declarations := brokenLink.namedNodes.map fun node =>
    (("file:///work/doc.json", node.name),
      { name := node.name, document := 0, systemId := "file:///work/doc.json", key := node.name
        node := node.node, package := .text defaultPackage })
  names := [("Page", "file:///work/doc.json#/definitions/Page")]

theorem leadsTo_brokenLink (pointer : String) :
    LeadsTo { library := brokenLink, request := {} } brokenLinkState.declarations 0
      (listReference pointer) ("file:///work/doc.json", "List")
      (Table.values brokenLinkState.declarations)[1] where
  resolves := by
    refine ⟨(Library.targetIn 0 brokenLink.documents[0]
      (Library.fragmentOf "#/definitions/List")).get (by decide +kernel), ?_, by cbv⟩
    rw [Library.resolve, listReference]
    cbv
  isDeclared := by cbv
  isAlias := by cbv

/-- The link stops the second pass before it comes to the list. -/
theorem no_circles_brokenLink :
    onChannel ((declareAll { library := brokenLink, request := {} }).run {}) {} =
        (.ok ((), brokenLinkState), {}) ∧
      HasReachableCycle { library := brokenLink, request := {} } brokenLinkState.declarations ∧
      (onChannel ((buildAll { library := brokenLink, request := {} }
        brokenLinkState.declarations).run brokenLinkState) {}).2.circles = 0 := by
  have again : AliasRefers { library := brokenLink, request := {} } brokenLinkState.declarations
      ("file:///work/doc.json", "List") ("file:///work/doc.json", "List") := by
    have leads := leadsTo_brokenLink "#/definitions/List/items"
    exact ⟨_, leads.isDeclared, leads.isAlias, _, .head _, _, leads⟩
  have reachable : HasReachableCycle { library := brokenLink, request := {} }
      brokenLinkState.declarations :=
    ⟨_, List.mem_cons_self, rfl, _, .tail _ (.head _), _, _,
      leadsTo_brokenLink "#/definitions/Page/properties/list", _, .refl, .single again⟩
  exact ⟨by cbv, reachable, by decide +kernel⟩

end Analysis

end Typeloom
