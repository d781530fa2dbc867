import Mathlib.Data.List.Nodup
import Mathlib.Data.List.Perm.Subperm
import Typeloom.Proofs.Model.Clean
import Typeloom.Proofs.Model.Inheritance

/-!
# Traces of the analysis

A traced analysis does what the analysis does and keeps a trace of it: the names that are asked
for, each with the one that is given, the references with the types they are translated to, and the
aliases that are being followed.  The analysis hands these aliases down from reference to reference;
the traced one enters each of them when it begins to follow it and removes it when that ends, be it
with a type or with a stop.  Both have the same outcome, and the traced one never gives up an alias
because it has followed too many.
-/

namespace Typeloom

namespace Analysis

open Reporting

/-- A name that was asked for, and the one that was given instead. -/
structure NameRequest where
  base : String
  given : String
deriving DecidableEq, Repr, Inhabited

/-- A reference of a document with the type it was translated to. -/
structure Translation where
  document : Nat
  reference : Reference
  type : TypeExpr
  /-- How many classes and enums were built for it. -/
  built : Nat
deriving Repr, Inhabited

structure Trace where
  requests : List NameRequest := []
  translations : List Translation := []
  /-- The aliases that are being followed. -/
  following : List Key := []
  /-- Whether an alias was not followed because too many others were. -/
  exhausted : Bool := false
deriving Repr, Inhabited

/-- The trace with further requests and translations. -/
def Trace.adding (trace : Trace) (requests : List NameRequest) (translations : List Translation) :
    Trace :=
  { trace with
    requests := trace.requests ++ requests
    translations := trace.translations ++ translations }

@[simp] theorem Trace.adding_nil (trace : Trace) : trace.adding [] [] = trace := by
  simp [adding]

theorem Trace.adding_adding (trace : Trace) (requests more : List NameRequest)
    (translations further : List Translation) :
    (trace.adding requests translations).adding more further =
      trace.adding (requests ++ more) (translations ++ further) := by
  simp [adding]

/-- How many classes and enums have been built. -/
def State.size (state : State) : Nat :=
  state.classes.length + state.enums.length

abbrev Traced (α : Type) := StateT State (ExceptT Stop (StateM (Trace × Channel))) α

namespace Traced

variable {α β : Type}

/-- What comes of a traced step: its outcome, the trace and the channel. -/
def outcome (step : Traced α) (state : State) (trace : Trace) (channel : Channel) :
    Except Stop (α × State) × Trace × Channel :=
  (ExceptT.run (step.run state)).run (trace, channel)

theorem outcome_bind (step : Traced α) (next : α → Traced β) (state : State) (trace : Trace)
    (channel : Channel) :
    outcome (step >>= next) state trace channel =
      match outcome step state trace channel with
      | (.ok (value, middle), between, further) => outcome (next value) middle between further
      | (.error stop, between, further) => (.error stop, between, further) := by
  simp only [outcome, StateT.run_bind, ExceptT.run_bind]
  rcases (step.run state).run.run (trace, channel) with ⟨stop | value, after⟩ <;> rfl

theorem exists_of_outcome_bind {step : Traced α} {next : α → Traced β} {state last : State}
    {trace later : Trace} {channel channel' : Channel} {result : β}
    (ends : outcome (step >>= next) state trace channel = (.ok (result, last), later, channel')) :
    ∃ value middle between further,
      outcome step state trace channel = (.ok (value, middle), between, further) ∧
        outcome (next value) middle between further = (.ok (result, last), later, channel') := by
  rw [outcome_bind] at ends
  rcases began : outcome step state trace channel with ⟨stop | ⟨value, middle⟩, between, further⟩
  · simp [began] at ends
  · rw [began] at ends
    exact ⟨value, middle, between, further, rfl, ends⟩

/-- A step that leaves the trace as it is. -/
def untraced (step : Step α) : Traced α := fun state =>
  ExceptT.mk fun (trace, channel) =>
    let (result, after) := onChannel (step.run state) channel
    (result, trace, after)

theorem outcome_untraced (step : Step α) (state : State) (trace : Trace) (channel : Channel) :
    outcome (untraced step) state trace channel =
      ((onChannel (step.run state) channel).1, trace, (onChannel (step.run state) channel).2) :=
  rfl

theorem of_outcome_untraced {step : Step α} {state after : State} {trace later : Trace}
    {channel channel' : Channel} {value : α}
    (ends : outcome (untraced step) state trace channel = (.ok (value, after), later, channel')) :
    onChannel (step.run state) channel = (.ok (value, after), channel') ∧ later = trace := by
  rw [outcome_untraced] at ends
  obtain ⟨isOk, sameTrace, isLast⟩ : (onChannel (step.run state) channel).1 = .ok (value, after) ∧
      trace = later ∧ (onChannel (step.run state) channel).2 = channel' := by
    simpa using ends
  exact ⟨Prod.ext isOk isLast, sameTrace.symm⟩

def change (update : Trace → Trace) : Traced Unit := fun state =>
  ExceptT.mk fun (trace, channel) => (.ok ((), state), update trace, channel)

/-- The trace as it is. -/
def current : Traced Trace := fun state =>
  ExceptT.mk fun (trace, channel) => (.ok (trace, state), trace, channel)

/-- A step that is taken while an alias is being followed. -/
def following (key : Key) (step : Traced α) : Traced α := fun state =>
  ExceptT.mk fun (trace, channel) =>
    let (result, between, after) :=
      outcome step state { trace with following := trace.following ++ [key] } channel
    (result, { between with following := between.following.erase key }, after)

theorem outcome_following (key : Key) (step : Traced α) (state : State) (trace : Trace)
    (channel : Channel) :
    outcome (following key step) state trace channel =
      match outcome step state { trace with following := trace.following ++ [key] } channel with
      | (result, between, after) =>
          (result, { between with following := between.following.erase key }, after) :=
  rfl

/-- A step that translates a reference, which the trace keeps with its type. -/
def translating (document : Nat) (reference : Reference) (step : Traced TypeExpr) :
    Traced TypeExpr := do
  let before ← get
  let type ← step
  let built := (← get).size - before.size
  change fun trace => trace.adding [] [{ document, reference, type, built }]
  return type

end Traced

open Traced

/-! ## The passes of an analysis -/

/-- The first pass: everything is declared. -/
def declareAll (setting : Setting) : Step Unit :=
  setting.library.documents.zipIdx.forM fun (document, index) =>
    declareDocument setting.request index document

/-- The second pass: everything that is declared is built. -/
def buildAll (setting : Setting) (declared : Table Key Declaration) : Step Unit :=
  let declarations := Table.values declared
  declarations.forM (buildDeclaration setting (declarations.length + 1))

theorem analysis_eq (setting : Setting) : analysis setting = (do
    declareAll setting
    buildAll setting (← get).declarations
    let classes ← cutCycles 0 (← get).classes
    modify fun state => { state with classes }) :=
  rfl

/-! ## The traced analysis -/

def tracedTakeName (base source : String) : Traced String := do
  let given ← untraced (takeName base source)
  change fun trace => trace.adding [{ base, given }] []
  return given

def tracedBuildClass (name systemId : String) (package : Json) (info : NodeInfo)
    (base : Traced (Option String)) (fields : Traced (List FieldDefinition)) : Traced Unit := do
  let place := (← get).classes.length
  untraced (reportAt .info ("generating class " ++ name) systemId info.pointer)
  let base ← base
  let fields ← fields
  let definition : ClassDefinition :=
    { name, package, base, fields, description := info.description
      source := systemId ++ info.pointer }
  modify fun state => { state with classes := state.classes.insertIdx place definition }

def tracedReference (setting : Setting) (follow : Declaration → Traced TypeExpr) (site : Site)
    (reference : Reference) : Traced TypeExpr := translating site.document reference do
  let shown := reference.target.inMessage
  match ← untraced (orFault (setting.library.resolve site.document reference)) with
  | none =>
      untraced (reportAt .error ("undefined reference '" ++ shown ++ "'") site.systemId
        reference.info.pointer)
      return .anything
  | some target =>
      let key := (target.document.systemId, target.key)
      match Table.get? (← get).declarations key with
      | none => return .anything
      | some declaration =>
          match declaration.kind with
          | .classDefinition => return .instanceOf declaration.name
          | .enumDefinition => return .memberOf declaration.name
          | .alias =>
              if (← current).following.contains key then
                untraced (reportAt .error ("circular reference '" ++ shown ++ "'") site.systemId
                  reference.info.pointer)
                return .anything
              following key (follow declaration)

def tracedBase (setting : Setting) (follow : Declaration → Traced TypeExpr) (site : Site)
    (pointer : String) : Option Reference → Traced (Option String)
  | none => return none
  | some reference => do
      let type ← tracedReference setting follow { site with owner := "", property := "" } reference
      if type.kind = .classRef then return some type.name
      untraced (reportAt .error
        ("allOf base '" ++ reference.target.inMessage ++ "' is not an object definition")
        site.systemId pointer)
      return none

mutual

def tracedNode (setting : Setting) (follow : Declaration → Traced TypeExpr) (site : Site) :
    Node → Traced TypeExpr
  | .ref reference => tracedReference setting follow site reference
  | .primitive info type => untraced (primitiveType site info type)
  | .const _ value type => return .literal type value
  | .enum info values valueType memberNames => do
      let name ← tracedTakeName site.baseName (site.systemId ++ info.pointer)
      untraced (buildEnum name site.systemId site.package info values valueType memberNames)
      return .memberOf name
  | .object body => do
      let name ← tracedTakeName site.baseName (site.systemId ++ body.info.pointer)
      tracedBuildClass name site.systemId site.package body.info (return none)
        (tracedProperties setting follow { site with owner := name } body.properties)
      return .instanceOf name
  | .allOf info base none => do
      let name ← tracedTakeName site.baseName (site.systemId ++ info.pointer)
      tracedBuildClass name site.systemId site.package info
        (tracedBase setting follow site info.pointer base) (return [])
      return .instanceOf name
  | .allOf info base (some body) => do
      let name ← tracedTakeName site.baseName (site.systemId ++ info.pointer)
      tracedBuildClass name site.systemId site.package info
        (tracedBase setting follow site info.pointer base)
        (tracedProperties setting follow { site with owner := name } body.properties)
      return .instanceOf name
  | .array _ none _ => return .listOf .anything
  | .array _ (some item) _ => return .listOf (← tracedNode setting follow site item)
  | .tuple _ items _ => return .tupleOf (← tracedNodes setting follow site items)
  | .union _ _ variants => do return unionType (← tracedNodes setting follow site variants)

def tracedNodes (setting : Setting) (follow : Declaration → Traced TypeExpr) (site : Site) :
    List Node → Traced (List TypeExpr)
  | [] => return []
  | node :: rest => do
      let type ← tracedNode setting follow site node
      let types ← tracedNodes setting follow site rest
      return type :: types

def tracedProperties (setting : Setting) (follow : Declaration → Traced TypeExpr) (site : Site) :
    List (Property Node) → Traced (List FieldDefinition)
  | [] => return []
  | property :: rest =>
      if isListed property.name setting.request.ignoredFields then
        tracedProperties setting follow site rest
      else do
        let type ← tracedNode setting follow { site with property := property.name } property.type
        let fields ← tracedProperties setting follow site rest
        return fieldOf property type :: fields

end

def tracedAlias (setting : Setting) : Nat → Declaration → Traced TypeExpr
  | 0, _ => do
      change fun trace => { trace with exhausted := true }
      return .anything
  | depth + 1, declaration =>
      tracedNode setting (tracedAlias setting depth) (declaration.site setting) declaration.node

def tracedBuildDeclaration (setting : Setting) (depth : Nat) (declaration : Declaration) :
    Traced Unit := do
  untraced (liftM poll)
  let site := declaration.site setting
  let follow := tracedAlias setting depth
  match declaration.node with
  | .object body =>
      tracedBuildClass declaration.name declaration.systemId declaration.package body.info
        (return none) (tracedProperties setting follow site body.properties)
  | .allOf info base extension =>
      tracedBuildClass declaration.name declaration.systemId declaration.package info
        (tracedBase setting follow site info.pointer base)
        (match extension with
          | some body => tracedProperties setting follow site body.properties
          | none => return [])
  | .enum info values valueType memberNames =>
      untraced (buildEnum declaration.name declaration.systemId declaration.package info values
        valueType memberNames)
  | node =>
      untraced (reportAt .info
        ("definition '" ++ declaration.key ++
          "' is an alias of a built-in type; no class is generated")
        declaration.systemId node.pointer)

def tracedBuildAll (setting : Setting) (declared : Table Key Declaration) : Traced Unit :=
  let declarations := Table.values declared
  declarations.forM (tracedBuildDeclaration setting (declarations.length + 1))

def tracedAnalysis (setting : Setting) : Traced Unit := do
  untraced (declareAll setting)
  tracedBuildAll setting (← get).declarations
  let classes ← untraced (cutCycles 0 (← get).classes)
  modify fun state => { state with classes }

/-! ## Traces tell the truth -/

/-- Whether a traced step has the same outcome as a step, adds requests and translations to the
trace and nothing else, and leaves the declarations as they are. -/
def Traces {α : Type} (declared : Table Key Declaration) (following : List Key)
    (traced : Traced α) (step : Step α) : Prop :=
  ∀ ⦃state trace⦄ channel, state.declarations = declared → trace.following = following →
    ∃ requests translations, traced.outcome state trace channel =
        ((onChannel (step.run state) channel).1, trace.adding requests translations,
          (onChannel (step.run state) channel).2) ∧
      ∀ value after, (onChannel (step.run state) channel).1 = .ok (value, after) →
        after.declarations = declared

section Rules

variable {α β : Type} {declared : Table Key Declaration} {keys : List Key}

theorem traces_untraced {step : Step α}
    (keeps : ∀ state : State, state.declarations = declared →
      Ensures step state fun _ after => after.declarations = declared) :
    Traces declared keys (untraced step) step := by
  intro state trace channel same _
  refine ⟨[], [], by rw [Trace.adding_nil]; rfl, fun value after isOutcome => ?_⟩
  exact keeps state same (Prod.ext isOutcome rfl)

theorem traces_pure (value : α) : Traces declared keys (pure value) (pure value) :=
  traces_untraced fun _ same => ensures_pure same

theorem traces_bind {traced : Traced α} {step : Step α} {tracedNext : α → Traced β}
    {next : α → Step β} (first : Traces declared keys traced step)
    (rest : ∀ value, Traces declared keys (tracedNext value) (next value)) :
    Traces declared keys (traced >>= tracedNext) (step >>= next) := by
  intro state trace channel same isFollowing
  obtain ⟨requests, translations, isFirst, keeps⟩ := first channel same isFollowing
  rw [outcome_bind, isFirst, StateT.run_bind, onChannel_bind]
  rcases ran : onChannel (step.run state) channel with ⟨stop | ⟨value, middle⟩, between⟩
  · exact ⟨requests, translations, rfl, by simp⟩
  · have stillSame := keeps value middle (congrArg Prod.fst ran)
    have stillFollowing : (trace.adding requests translations).following = keys := isFollowing
    obtain ⟨more, further, isRest, keepsOn⟩ := rest value between stillSame stillFollowing
    exact ⟨requests ++ more, translations ++ further, by rw [← Trace.adding_adding]; exact isRest,
      keepsOn⟩

theorem traces_get {tracedNext : State → Traced β} {next : State → Step β}
    (rest : ∀ state : State, state.declarations = declared →
      Traces declared keys (tracedNext state) (next state)) :
    Traces declared keys (get >>= tracedNext) (get >>= next) :=
  fun state _ channel same isFollowing => rest state same channel same isFollowing

theorem traces_modify {update : State → State}
    (keeps : ∀ state, (update state).declarations = state.declarations) :
    Traces declared keys (modify update) (modify update) := by
  intro state trace channel same _
  refine ⟨[], [], by rw [Trace.adding_nil]; rfl, fun value after isOutcome => ?_⟩
  cases isOutcome
  exact (keeps state).trans same

theorem traces_reportAt (severity : Severity) (message systemId pointer : String) :
    Traces declared keys (untraced (reportAt severity message systemId pointer))
      (reportAt severity message systemId pointer) :=
  traces_untraced fun _ same => ensures_reportAt same

theorem traces_orFault (result : Except Fault α) :
    Traces declared keys (untraced (orFault result)) (orFault result) :=
  traces_untraced fun _ same => ensures_orFault fun _ _ => same

theorem traces_takeName (base source : String) :
    Traces declared keys (tracedTakeName base source) (takeName base source) := by
  intro state trace channel same _
  refine ⟨[{ base, given := freshName state.names base }], [], rfl, fun value after isOutcome => ?_⟩
  cases isOutcome
  exact same

theorem traces_buildEnum (name systemId : String) (package : Json) (info : NodeInfo)
    (values : List Json) (valueType : String) (memberNames : Json) :
    Traces declared keys
      (untraced (buildEnum name systemId package info values valueType memberNames))
      (buildEnum name systemId package info values valueType memberNames) :=
  traces_untraced fun _ same => ensures_buildEnum fun _ _ => same

theorem traces_buildClass (name systemId : String) (package : Json) (info : NodeInfo)
    {tracedBase : Traced (Option String)} {base : Step (Option String)}
    {tracedFields : Traced (List FieldDefinition)} {fields : Step (List FieldDefinition)}
    (ofBase : Traces declared keys tracedBase base)
    (ofFields : Traces declared keys tracedFields fields) :
    Traces declared keys (tracedBuildClass name systemId package info tracedBase tracedFields)
      (buildClass name systemId package info base fields) :=
  traces_get fun _ _ => traces_bind (traces_reportAt ..) fun _ => traces_bind ofBase fun _ =>
    traces_bind ofFields fun _ => traces_modify fun _ => rfl

theorem traces_current {tracedNext : Trace → Traced β} {step : Step β}
    (rest : ∀ trace : Trace, trace.following = keys →
      Traces declared keys (tracedNext trace) step) :
    Traces declared keys (current >>= tracedNext) step :=
  fun _ trace channel same isFollowing => rest trace isFollowing channel same isFollowing

/-- An alias that is not being followed yet is being followed while it is translated, and no longer
afterwards. -/
theorem traces_following {key : Key} (unknown : key ∉ keys) {traced : Traced α} {step : Step α}
    (traces : Traces declared (keys ++ [key]) traced step) :
    Traces declared keys (following key traced) step := by
  intro state trace channel same isFollowing
  have isFollowed : Trace.following { trace with following := trace.following ++ [key] } =
      keys ++ [key] := congrArg (· ++ [key]) isFollowing
  obtain ⟨requests, translations, isOutcome, keeps⟩ := traces channel same isFollowed
  have restored : (trace.following ++ [key]).erase key = trace.following := by
    rw [isFollowing, List.erase_append_right _ unknown, List.erase_cons_head, List.append_nil]
  refine ⟨requests, translations, ?_, keeps⟩
  rw [outcome_following, isOutcome]
  dsimp only [Trace.adding]
  rw [restored]

theorem traces_change {update : Trace → Trace} {requests : List NameRequest}
    {translations : List Translation}
    (adds : ∀ trace, update trace = trace.adding requests translations) :
    Traces declared keys (change update) (pure ()) := by
  intro state trace channel same _
  refine ⟨requests, translations, by rw [← adds]; rfl, fun value after isOutcome => ?_⟩
  cases isOutcome
  exact same

theorem traces_translating (document : Nat) (reference : Reference) {traced : Traced TypeExpr}
    {step : Step TypeExpr} (traces : Traces declared keys traced step) :
    Traces declared keys (translating document reference traced) step := by
  have ending (before : State) : Traces declared keys (traced >>= fun type => do
      let built := (← get).size - before.size
      change fun trace => trace.adding [] [{ document, reference, type, built }]
      return type) (step >>= pure) :=
    traces_bind traces fun type => fun state trace channel same isFollowing =>
      traces_bind (traces_change fun _ => rfl) (fun _ => traces_pure type) channel same isFollowing
  rw [bind_pure] at ending
  exact fun state trace channel same isFollowing => ending state channel same isFollowing

end Rules

section Translation

variable {setting : Setting} {declared : Table Key Declaration} {resolving : List Key}
  {tracedFollow : Declaration → Traced TypeExpr} {follow : List Key → Declaration → Step TypeExpr}

/-- Whether the traced way to follow an alias that is not being followed yet has the same outcome
as another one. -/
def TracesAliases (declared : Table Key Declaration) (resolving : List Key)
    (tracedFollow : Declaration → Traced TypeExpr)
    (follow : List Key → Declaration → Step TypeExpr) : Prop :=
  ∀ ⦃key declaration⦄, Table.get? declared key = some declaration → key ∉ resolving →
    Traces declared (resolving ++ [key]) (tracedFollow declaration)
      (follow (resolving ++ [key]) declaration)

theorem traces_reference (aliases : TracesAliases declared resolving tracedFollow follow)
    (site : Site) (reference : Reference) :
    Traces declared resolving (tracedReference setting tracedFollow site reference)
      (translateReference setting follow resolving site reference) := by
  refine traces_translating _ _ (traces_bind (traces_orFault _) fun target? => ?_)
  cases target? with
  | none => exact traces_bind (traces_reportAt ..) fun _ => traces_pure _
  | some target =>
      refine traces_get fun state same => ?_
      rw [same]
      cases isDeclared : Table.get? declared (target.document.systemId, target.key) with
      | none => exact traces_pure _
      | some declaration =>
          dsimp only
          cases declaration.kind with
          | classDefinition => exact traces_pure _
          | enumDefinition => exact traces_pure _
          | «alias» =>
              refine traces_current fun trace isFollowing => ?_
              rw [isFollowing]
              by_cases isCircle : (target.document.systemId, target.key) ∈ resolving
              · simp only [List.contains_eq_mem, isCircle, decide_true, if_true]
                exact traces_bind (traces_reportAt ..) fun _ => traces_pure _
              · simp only [List.contains_eq_mem, isCircle, decide_false, Bool.false_eq_true,
                  if_false]
                exact traces_following isCircle (aliases isDeclared isCircle)

theorem traces_base (aliases : TracesAliases declared resolving tracedFollow follow) (site : Site)
    (pointer : String) (base : Option Reference) :
    Traces declared resolving (tracedBase setting tracedFollow site pointer base)
      (translateBase setting follow resolving site pointer base) := by
  cases base with
  | none => exact traces_pure none
  | some reference =>
      refine traces_bind (traces_reference aliases _ reference) fun type => ?_
      split
      · exact traces_pure _
      · exact traces_bind (traces_reportAt ..) fun _ => traces_pure none

theorem traces_primitive (site : Site) (info : NodeInfo) (type : Json) :
    Traces declared resolving (untraced (primitiveType site info type))
      (primitiveType site info type) :=
  traces_untraced fun state same =>
    (ensures_primitiveType site info type state).mono fun _ _ kept => kept ▸ same

theorem traces_translation (aliases : TracesAliases declared resolving tracedFollow follow) :
    (∀ site node, Traces declared resolving (tracedNode setting tracedFollow site node)
      (translateNode setting follow resolving site node)) ∧
    (∀ site nodes, Traces declared resolving (tracedNodes setting tracedFollow site nodes)
      (translateNodes setting follow resolving site nodes)) ∧
    ∀ site properties, Traces declared resolving
      (tracedProperties setting tracedFollow site properties)
      (translateProperties setting follow resolving site properties) := by
  refine translateNode.mutual_induct setting _ _ _ ?ref ?primitive ?const ?enum ?object ?allOf
    ?arrayOfAnything ?array ?tuple ?union ?noNode ?nextNode ?noProperty ?ignored ?nextProperty
  case ref =>
    intro site reference
    rw [tracedNode, translateNode]
    exact traces_reference aliases site reference
  case primitive =>
    intro site info type
    rw [tracedNode, translateNode]
    exact traces_primitive site info type
  case const =>
    intro site info value type
    rw [tracedNode, translateNode]
    exact traces_pure _
  case enum =>
    intro site info values valueType memberNames
    rw [tracedNode, translateNode]
    exact traces_bind (traces_takeName ..) fun _ =>
      traces_bind (traces_buildEnum ..) fun _ => traces_pure _
  case object =>
    intro site body fields
    rw [tracedNode, translateNode]
    exact traces_bind (traces_takeName ..) fun name =>
      traces_bind (traces_buildClass _ _ _ _ (traces_pure none) (fields name)) fun _ =>
        traces_pure _
  case allOf =>
    intro site info base extension fields
    cases extension with
    | none =>
        rw [tracedNode, translateNode]
        exact traces_bind (traces_takeName ..) fun name =>
          traces_bind (traces_buildClass _ _ _ _ (traces_base aliases ..) (traces_pure []))
            fun _ => traces_pure _
    | some body =>
        rw [tracedNode, translateNode]
        exact traces_bind (traces_takeName ..) fun name =>
          traces_bind (traces_buildClass _ _ _ _ (traces_base aliases ..) (fields name))
            fun _ => traces_pure _
  case arrayOfAnything =>
    intro site info minItems
    rw [tracedNode, translateNode]
    exact traces_pure _
  case array =>
    intro site info item minItems ofItem
    rw [tracedNode, translateNode]
    exact traces_bind ofItem fun _ => traces_pure _
  case tuple =>
    intro site info items minItems ofItems
    rw [tracedNode, translateNode]
    exact traces_bind ofItems fun _ => traces_pure _
  case union =>
    intro site info keyword variants ofVariants
    rw [tracedNode, translateNode]
    exact traces_bind ofVariants fun _ => traces_pure _
  case noNode =>
    intro site
    rw [tracedNodes, translateNodes]
    exact traces_pure []
  case nextNode =>
    intro site node rest ofNode ofRest
    rw [tracedNodes, translateNodes]
    exact traces_bind ofNode fun _ => traces_bind ofRest fun _ => traces_pure _
  case noProperty =>
    intro site
    rw [tracedProperties, translateProperties]
    exact traces_pure []
  case ignored =>
    intro site property rest ignored ofRest
    rw [tracedProperties, translateProperties, if_pos ignored, if_pos ignored]
    exact ofRest
  case nextProperty =>
    intro site property rest notIgnored ofType ofRest
    rw [tracedProperties, translateProperties, if_neg notIgnored, if_neg notIgnored]
    exact traces_bind ofType fun _ => traces_bind ofRest fun _ => traces_pure _

end Translation

/-! ## There is always room for another alias -/

/-- Whether aliases that are being followed are different and declared, and further ones may be
followed until all declarations are. -/
structure Guarded (declared : Table Key Declaration) (depth : Nat) (resolving : List Key) :
    Prop where
  nodup : resolving.Nodup
  known : resolving ⊆ Table.keys declared
  enough : declared.length < depth + resolving.length

theorem guarded_nil (declared : Table Key Declaration) :
    Guarded declared (declared.length + 1) [] :=
  ⟨List.nodup_nil, List.nil_subset _, Nat.lt_succ_self _⟩

theorem Guarded.next {declared : Table Key Declaration} {depth : Nat} {resolving : List Key}
    (guarded : Guarded declared depth resolving) {key : Key} {declaration : Declaration}
    (isDeclared : Table.get? declared key = some declaration) (unknown : key ∉ resolving) :
    ∃ smaller, depth = smaller + 1 ∧ Guarded declared smaller (resolving ++ [key]) := by
  have isKey : key ∈ Table.keys declared :=
    Table.contains_iff.mp (by rw [Table.contains, isDeclared]; rfl)
  have nodup : (resolving ++ [key]).Nodup := by
    rw [List.nodup_append_comm, List.singleton_append, List.nodup_cons]
    exact ⟨unknown, guarded.nodup⟩
  have inside : resolving ++ [key] ⊆ Table.keys declared :=
    List.append_subset.mpr ⟨guarded.known, by simpa using isKey⟩
  have bounded : resolving.length + 1 ≤ declared.length := by
    have := (List.subperm_of_subset nodup inside).length_le
    rwa [List.length_append, List.length_singleton, Table.keys, List.length_map] at this
  have enough := guarded.enough
  obtain ⟨smaller, rfl⟩ : ∃ smaller, depth = smaller + 1 := ⟨depth - 1, by omega⟩
  refine ⟨smaller, rfl, nodup, inside, ?_⟩
  rw [List.length_append, List.length_singleton]
  omega

section Stages

variable {setting : Setting} {declared : Table Key Declaration}

theorem tracesAliases {depth : Nat} {resolving : List Key}
    (guarded : Guarded declared depth resolving) :
    TracesAliases declared resolving (tracedAlias setting depth) (followAlias setting depth) := by
  induction depth generalizing resolving with
  | zero =>
      intro key declaration isDeclared unknown
      obtain ⟨_, isZero, -⟩ := guarded.next isDeclared unknown
      cases isZero
  | succ depth ih =>
      intro key declaration isDeclared unknown
      obtain ⟨_, same, guardedOn⟩ := guarded.next isDeclared unknown
      cases same
      exact (traces_translation (ih guardedOn)).1 (declaration.site setting) declaration.node

theorem traces_buildDeclaration (declaration : Declaration) :
    Traces declared [] (tracedBuildDeclaration setting (declared.length + 1) declaration)
      (buildDeclaration setting (declared.length + 1) declaration) := by
  have aliases : TracesAliases declared [] (tracedAlias setting (declared.length + 1))
      (followAlias setting (declared.length + 1)) := tracesAliases (guarded_nil declared)
  have properties (properties : List (Property Node)) : Traces declared []
      (tracedProperties setting (tracedAlias setting (declared.length + 1))
        (declaration.site setting) properties)
      (translateProperties setting (followAlias setting (declared.length + 1)) []
        (declaration.site setting) properties) :=
    (traces_translation aliases).2.2 _ properties
  refine traces_bind (traces_untraced fun _ same => ensures_liftM fun _ => same) fun _ => ?_
  cases declaration.node with
  | object body => exact traces_buildClass _ _ _ _ (traces_pure none) (properties body.properties)
  | allOf info base extension =>
      refine traces_buildClass _ _ _ _ (traces_base aliases ..) ?_
      cases extension with
      | none => exact traces_pure []
      | some body => exact properties body.properties
  | enum info values valueType memberNames => exact traces_buildEnum ..
  | _ => exact traces_reportAt ..

theorem traces_forM {items : List Declaration} {traced : Declaration → Traced PUnit}
    {step : Declaration → Step PUnit} {keys : List Key}
    (traces : ∀ item, Traces declared keys (traced item) (step item)) :
    Traces declared keys (items.forM traced) (items.forM step) := by
  induction items with
  | nil => exact traces_pure PUnit.unit
  | cons item rest ih => exact traces_bind (traces item) fun _ => ih

theorem traces_buildAll (setting : Setting) (declared : Table Key Declaration) :
    Traces declared [] (tracedBuildAll setting declared) (buildAll setting declared) := by
  rw [tracedBuildAll, buildAll, Table.values, List.length_map]
  exact traces_forM traces_buildDeclaration

/-- A traced analysis has the outcome of the analysis, follows no alias any more in the end and has
never given one up. -/
theorem outcome_tracedAnalysis (setting : Setting) (channel : Channel) :
    ∃ requests translations, (tracedAnalysis setting).outcome {} {} channel =
      ((onChannel ((analysis setting).run {}) channel).1, { requests, translations },
        (onChannel ((analysis setting).run {}) channel).2) := by
  rw [analysis_eq, tracedAnalysis, outcome_bind, StateT.run_bind, onChannel_bind, outcome_untraced]
  rcases onChannel ((declareAll setting).run {}) channel with ⟨stop | ⟨_, state⟩, between⟩
  · exact ⟨[], [], rfl⟩
  · have building (later : State) (same : later.declarations = state.declarations) :
        Traces state.declarations [] (tracedBuildAll setting later.declarations)
          (buildAll setting later.declarations) :=
      same ▸ traces_buildAll setting later.declarations
    have cutting (last : State) : Traces state.declarations []
        (untraced (cutCycles 0 last.classes)) (cutCycles 0 last.classes) :=
      traces_untraced fun state same =>
        (ensures_cutCycles 0 last.classes state).mono fun _ _ cut => cut.1 ▸ same
    have ending (classes : List ClassDefinition) : Traces state.declarations []
        (modify fun state => { state with classes }) (modify fun state => { state with classes }) :=
      traces_modify fun _ => rfl
    have traces := traces_get fun later same => traces_bind (building later same) fun _ =>
      traces_get fun last _ => traces_bind (cutting last) ending
    have nothing : Trace.following {} = [] := rfl
    obtain ⟨requests, translations, isOutcome, -⟩ := traces between rfl nothing
    exact ⟨requests, translations, isOutcome⟩

end Stages

end Analysis

end Typeloom
