import Typeloom.Proofs.Model.Composition
import Typeloom.Proofs.Model.Ensures

/-!
# Steps of the analysis that report no error

Errors are counted on the channel, and no step of the analysis takes one back.  A step therefore
reports no error only if none of its parts does, and what the parts ensure as long as they report
no error can be put together as for steps in general.
-/

namespace Typeloom

namespace Analysis

open Reporting

/-- Whether a step never takes back an error. -/
def Steady {α : Type} (step : Step α) : Prop :=
  ∀ ⦃state channel value after channel'⦄,
    onChannel (step.run state) channel = (.ok (value, after), channel') →
      channel.errors ≤ channel'.errors

/-- Whenever a step that begins in a state yields a value and reports no error, the value and the
state in which the step ends have a property. -/
def EnsuresClean {α : Type} (step : Step α) (state : State) (post : α → State → Prop) : Prop :=
  ∀ ⦃channel value after channel'⦄,
    onChannel (step.run state) channel = (.ok (value, after), channel') →
      channel'.errors ≤ channel.errors → post value after

section Combinators

variable {α β : Type} {state : State}

theorem exists_of_run_bind {step : Step α} {next : α → Step β} {channel channel' : Channel}
    {result : β} {after : State}
    (ends : onChannel ((step >>= next).run state) channel = (.ok (result, after), channel')) :
    ∃ value middle between, onChannel (step.run state) channel = (.ok (value, middle), between) ∧
      onChannel ((next value).run middle) between = (.ok (result, after), channel') := by
  rw [StateT.run_bind] at ends
  obtain ⟨⟨value, middle⟩, between, first, rest⟩ := exists_of_onChannel_bind ends
  exact ⟨value, middle, between, first, rest⟩

/-! ## No error is taken back -/

theorem steady_pure (value : α) : Steady (pure value) := by
  intro state channel value' after channel' ends
  cases ends
  exact Nat.le_refl _

theorem steady_bind {step : Step α} {next : α → Step β} (first : Steady step)
    (rest : ∀ value, Steady (next value)) : Steady (step >>= next) := by
  intro state channel result after channel' ends
  obtain ⟨value, middle, between, ofFirst, ofRest⟩ := exists_of_run_bind ends
  exact Nat.le_trans (first ofFirst) (rest value ofRest)

theorem steady_get : Steady get := by
  intro state channel value after channel' ends
  cases ends
  exact Nat.le_refl _

theorem steady_set (next : State) : Steady (set next) := by
  intro state channel value after channel' ends
  cases ends
  exact Nat.le_refl _

theorem steady_modify (change : State → State) : Steady (modify change) := by
  intro state channel value after channel' ends
  cases ends
  exact Nat.le_refl _

theorem steady_liftM {action : Reporting α}
    (steady : ∀ {channel value channel'}, onChannel action channel = (.ok value, channel') →
      channel.errors ≤ channel'.errors) : Steady (liftM action) := by
  intro state channel value after channel' ends
  change onChannel (action >>= fun value => pure (value, state)) channel = _ at ends
  obtain ⟨value, between, acts, last⟩ := exists_of_onChannel_bind ends
  cases last
  exact steady acts

theorem steady_orFault (result : Except Fault α) : Steady (orFault result) :=
  steady_liftM fun acts =>
    Nat.le_of_eq (congrArg Channel.errors (of_onChannel_ofExcept acts).2.symm)

theorem steady_report (severity : Severity) (message : String)
    (systemId location : Option String) :
    Steady (liftM (report severity message systemId location)) := by
  refine steady_liftM fun acts => ?_
  cases acts
  rw [Channel.errors_notify]
  split <;> omega

theorem steady_reportAt (severity : Severity) (message systemId pointer : String) :
    Steady (reportAt severity message systemId pointer) :=
  steady_report severity message (some systemId) (some pointer)

theorem steady_poll : Steady (liftM poll) := by
  refine steady_liftM fun {channel value channel'} acts => ?_
  rw [onChannel_poll] at acts
  rw [← (Prod.mk.inj acts).2]
  exact Nat.le_refl channel.errors

theorem steady_forM {items : List α} {step : α → Step PUnit} (steady : ∀ item, Steady (step item)) :
    Steady (items.forM step) := by
  induction items with
  | nil => exact steady_pure PUnit.unit
  | cons item rest ih => exact steady_bind (steady item) fun _ => ih

theorem steady_foldlM {items : List α} {step : β → α → Step β}
    (steady : ∀ value item, Steady (step value item)) (initial : β) :
    Steady (items.foldlM step initial) := by
  induction items generalizing initial with
  | nil => exact steady_pure initial
  | cons item rest ih =>
      rw [List.foldlM_cons]
      exact steady_bind (steady initial item) ih

/-! ## What is ensured as long as there is no error -/

theorem Ensures.clean {step : Step α} {post : α → State → Prop}
    (ensures : Ensures step state post) : EnsuresClean step state post :=
  fun _ _ _ _ ends _ => ensures ends

theorem EnsuresClean.mono {step : Step α} {weak strong : α → State → Prop}
    (ensures : EnsuresClean step state strong)
    (implies : ∀ value after, strong value after → weak value after) :
    EnsuresClean step state weak :=
  fun _ _ _ _ ends noError => implies _ _ (ensures ends noError)

theorem EnsuresClean.and {step : Step α} {left right : α → State → Prop}
    (leftEnsures : EnsuresClean step state left) (rightEnsures : EnsuresClean step state right) :
    EnsuresClean step state fun value after => left value after ∧ right value after :=
  fun _ _ _ _ ends noError => ⟨leftEnsures ends noError, rightEnsures ends noError⟩

theorem clean_bind {step : Step α} {next : α → Step β} {post : β → State → Prop}
    (steady : Steady step) (steadyOn : ∀ value, Steady (next value))
    (first : EnsuresClean step state fun value after => EnsuresClean (next value) after post) :
    EnsuresClean (step >>= next) state post := by
  intro channel result after channel' ends noError
  obtain ⟨value, middle, between, ofFirst, ofRest⟩ := exists_of_run_bind ends
  have early := steady ofFirst
  have late := steadyOn value ofRest
  exact first ofFirst (by omega) ofRest (by omega)

theorem clean_get {next : State → Step β} {post : β → State → Prop}
    (rest : EnsuresClean (next state) state post) : EnsuresClean (get >>= next) state post := by
  intro channel result after channel' ends noError
  obtain ⟨value, middle, between, gets, ofRest⟩ := exists_of_run_bind ends
  cases gets
  exact rest ofRest noError

theorem clean_orFault {result : Except Fault α} {next : α → Step β} {post : β → State → Prop}
    (rest : ∀ value, result = .ok value → EnsuresClean (next value) state post) :
    EnsuresClean (orFault result >>= next) state post := by
  intro channel outcome after channel' ends noError
  obtain ⟨value, middle, between, isValue, ofRest⟩ := exists_of_run_bind ends
  cases result with
  | ok result =>
      cases isValue
      exact rest value rfl ofRest noError
  | error fault => cases isValue

theorem clean_poll {next : Step β} {post : β → State → Prop}
    (rest : EnsuresClean next state post) :
    EnsuresClean (liftM poll >>= fun _ => next) state post := by
  intro channel outcome after channel' ends noError
  obtain ⟨_, middle, between, polls, ofRest⟩ := exists_of_run_bind ends
  change onChannel (poll >>= fun value => pure (value, state)) channel = _ at polls
  obtain ⟨_, _, answers, last⟩ := exists_of_onChannel_bind polls
  rw [onChannel_poll] at answers
  cases last
  have sameErrors := congrArg Channel.errors (Prod.mk.inj answers).2
  exact rest ofRest (Nat.le_trans noError (Nat.le_of_eq sameErrors))

/-- A step that reports an error is not one that reports none. -/
theorem clean_report {message : String} {systemId location : Option String}
    {post : Unit → State → Prop} :
    EnsuresClean (liftM (report .error message systemId location)) state post := by
  intro channel value after channel' ends noError
  cases ends
  simp only [Channel.errors_notify, Severity.isError, if_true] at noError
  omega

theorem clean_error {message systemId pointer : String} {post : Unit → State → Prop} :
    EnsuresClean (reportAt .error message systemId pointer) state post :=
  clean_report

theorem clean_forM {items : List α} {step : α → Step PUnit}
    (invariant : List α → State → Prop) (steady : ∀ item, Steady (step item))
    (begins : invariant items state)
    (keeps : ∀ {item rest state}, item ∈ items → invariant (item :: rest) state →
      EnsuresClean (step item) state fun _ after => invariant rest after) :
    EnsuresClean (items.forM step) state fun _ after => invariant [] after := by
  induction items generalizing state with
  | nil => exact (ensures_forM invariant begins (by simp)).clean
  | cons item rest ih =>
      change EnsuresClean (step item >>= fun _ => rest.forM step) state _
      refine clean_bind (steady item) (fun _ => steady_forM steady) ?_
      refine (keeps (by simp) begins).mono fun _ after between => ?_
      exact ih between fun occurs => keeps (List.mem_cons_of_mem item occurs)

theorem clean_foldlM {items : List α} {step : β → α → Step β}
    (invariant : List α → β → State → Prop) (steady : ∀ value item, Steady (step value item))
    {initial : β} (begins : invariant items initial state)
    (keeps : ∀ {value item rest state}, invariant (item :: rest) value state →
      EnsuresClean (step value item) state fun value after => invariant rest value after) :
    EnsuresClean (items.foldlM step initial) state fun value after => invariant [] value after := by
  induction items generalizing state initial with
  | nil => exact (ensures_pure begins).clean
  | cons item rest ih =>
      rw [List.foldlM_cons]
      exact clean_bind (steady initial item) (steady_foldlM steady)
        ((keeps begins).mono fun value after between => ih between)

end Combinators

/-! ## The steps of the analysis -/

/-- What reports at most takes back no error. -/
theorem Consists.steady {α : Type} {kind : String → Prop} {step : Step α}
    (consists : Consists kind step) : Steady step := by
  induction consists with
  | pure value => exact steady_pure value
  | bind _ _ first rest => exact steady_bind first rest
  | get => exact steady_get
  | set state => exact steady_set state
  | modify change => exact steady_modify change
  | orFault result => exact steady_orFault result
  | poll => exact steady_poll
  | reportAt severity _ systemId pointer => exact steady_reportAt ..

theorem clean_buildClass {name systemId : String} {package : Json} {info : NodeInfo}
    {base : Step (Option String)} {fields : Step (List FieldDefinition)} {state : State}
    {post : PUnit → State → Prop} (ofBase : Steady base) (ofFields : Steady fields)
    (holds : EnsuresClean base state fun base middle =>
      EnsuresClean fields middle fun fields after =>
        post ⟨⟩ (after.withClass state.classes.length
          { name, package, base, fields, description := info.description
            source := systemId ++ info.pointer })) :
    EnsuresClean (buildClass name systemId package info base fields) state post := by
  refine clean_get (clean_bind (steady_reportAt ..) (fun _ => ?steady) (ensures_reportAt ?_).clean)
  case steady =>
    exact steady_bind ofBase fun _ => steady_bind ofFields fun _ => steady_modify _
  refine clean_bind ofBase (fun _ => steady_bind ofFields fun _ => steady_modify _)
    (holds.mono fun base middle found => ?_)
  exact clean_bind ofFields (fun _ => steady_modify _)
    (found.mono fun fields after built => (ensures_modify built).clean)

theorem ensures_primitiveType (site : Site) (info : NodeInfo) (type : Json) (state : State) :
    Ensures (primitiveType site info type) state fun _ after => after = state := by
  unfold primitiveType
  split
  · exact ensures_pure rfl
  · refine ensures_bind (ensures_orFault fun key _ => ?_)
    split
    · exact ensures_pure rfl
    · exact ensures_bind (ensures_reportAt (ensures_pure rfl))

/-- What an analysis ensures that reports no error holds of its result. -/
theorem of_analyze_clean {library : Library} {request : Request} {channel channel' : Channel}
    {result : State} {post : State → Prop}
    (ensures : EnsuresClean (analysis { library, request }) {} fun _ after => post after)
    (returned : onChannel (analyze library request) channel = (.ok result, channel'))
    (noError : channel'.errors ≤ channel.errors) : post result := by
  obtain ⟨⟨_, after⟩, between, runs, last⟩ := exists_of_onChannel_bind returned
  cases last
  exact ensures runs noError

end Analysis

end Typeloom
