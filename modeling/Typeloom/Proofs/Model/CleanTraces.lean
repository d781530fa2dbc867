import Typeloom.Proofs.Model.Declarations
import Typeloom.Proofs.Model.Lineage
import Typeloom.Proofs.Model.Trace

/-!
# Traced steps that report no error

What a traced step does as long as it reports no error is a relation between the states and the
traces before and after it.  There is one rule for every way to put traced steps together, so that
the relation for a long step follows from those for its parts.
-/

namespace Typeloom

namespace Analysis

open Reporting Traced

/-- A relation between a state and a trace and the value, the state and the trace that come of
them. -/
abbrev Passage (α : Type) :=
  State → Trace → α → State → Trace → Prop

/-- Whether a traced step that reports no error leads along a passage.  In any case it takes no
error back and leaves the declarations and the aliases that are being followed as they are. -/
def Cleanly {α : Type} (declared : Table Key Declaration) (keys : List Key) (traced : Traced α)
    (passage : Passage α) : Prop :=
  ∀ ⦃before trace channel value after later channel'⦄, before.declarations = declared →
    trace.following = keys →
      traced.outcome before trace channel = (.ok (value, after), later, channel') →
        channel.errors ≤ channel'.errors ∧ after.declarations = declared ∧
          later.following = keys ∧
            (channel'.errors ≤ channel.errors → passage before trace value after later)

section Rules

variable {α β : Type} {declared : Table Key Declaration} {keys : List Key} {passage : Passage α}

theorem Cleanly.mono {traced : Traced α} {weak : Passage α}
    (cleanly : Cleanly declared keys traced passage)
    (implies : ∀ ⦃before trace value after later⦄, passage before trace value after later →
      weak before trace value after later) : Cleanly declared keys traced weak := by
  intro before trace channel value after later channel' same isFollowing ran
  obtain ⟨steady, keeps, keepsOn, clean⟩ := cleanly same isFollowing ran
  exact ⟨steady, keeps, keepsOn, fun noError => implies (clean noError)⟩

theorem cleanly_untraced {step : Step α} (steady : Steady step)
    (keeps : ∀ state : State, Ensures step state fun _ after =>
      after.declarations = state.declarations)
    (clean : ∀ state trace, EnsuresClean step state fun value after =>
      passage state trace value after trace) :
    Cleanly declared keys (untraced step) passage := by
  intro before trace channel value after later channel' same isFollowing ran
  obtain ⟨ends, rfl⟩ := of_outcome_untraced ran
  exact ⟨steady ends, (keeps before ends).trans same, isFollowing, clean before later ends⟩

/-- A step that leaves the state as it is. -/
theorem cleanly_quiet {step : Step α} {holds : α → Prop} (steady : Steady step)
    (keeps : ∀ state : State, Ensures step state fun _ after => after = state)
    (clean : ∀ state, EnsuresClean step state fun value _ => holds value) :
    Cleanly declared keys (untraced step) fun before trace value after later =>
      holds value ∧ after = before ∧ later = trace :=
  cleanly_untraced steady (fun state => (keeps state).mono fun _ _ same => congrArg _ same)
    fun state _ => ((keeps state).clean.and (clean state)).mono fun _ _ ⟨same, isValue⟩ =>
      ⟨isValue, same, rfl⟩

theorem cleanly_pure (value : α) :
    Cleanly declared keys (pure value) fun before trace result after later =>
      result = value ∧ after = before ∧ later = trace :=
  cleanly_quiet (steady_pure value) (fun _ => ensures_pure rfl) fun _ =>
    Ensures.clean (ensures_pure rfl)

theorem cleanly_bind {traced : Traced α} {next : α → Traced β} {passageOn : α → Passage β}
    (first : Cleanly declared keys traced passage)
    (rest : ∀ value, Cleanly declared keys (next value) (passageOn value)) :
    Cleanly declared keys (traced >>= next) fun before trace result last later =>
      ∃ value middle between, passage before trace value middle between ∧
        passageOn value middle between result last later := by
  intro before trace channel result last later channel' same isFollowing ran
  obtain ⟨value, middle, between, further, began, ended⟩ := exists_of_outcome_bind ran
  obtain ⟨steady, keeps, isFollowingOn, clean⟩ := first same isFollowing began
  obtain ⟨steadyOn, keepsOn, isFollowed, cleanOn⟩ := rest value keeps isFollowingOn ended
  exact ⟨Nat.le_trans steady steadyOn, keepsOn, isFollowed, fun noError =>
    ⟨value, middle, between, clean (Nat.le_trans steadyOn noError),
      cleanOn (Nat.le_trans noError steady)⟩⟩

theorem cleanly_get {next : State → Traced β} {passages : State → Passage β}
    (rest : ∀ state : State, state.declarations = declared →
      Cleanly declared keys (next state) (passages state)) :
    Cleanly declared keys (get >>= next) fun before => passages before before :=
  fun before _ _ _ _ _ _ same isFollowing ran => rest before same same isFollowing ran

theorem cleanly_current {next : Trace → Traced β} {passage : Passage β}
    (rest : ∀ trace : Trace, trace.following = keys →
      Cleanly declared keys (next trace) passage) :
    Cleanly declared keys (current >>= next) passage :=
  fun _ trace _ _ _ _ _ same isFollowing ran => rest trace isFollowing same isFollowing ran

theorem cleanly_modify (update : State → State)
    (keeps : ∀ state, (update state).declarations = state.declarations) :
    Cleanly declared keys (modify update) fun before trace _ after later =>
      after = update before ∧ later = trace := by
  intro before trace channel value after later channel' same isFollowing ran
  cases ran
  exact ⟨Nat.le_refl _, (keeps before).trans same, isFollowing, fun _ => ⟨rfl, rfl⟩⟩

theorem cleanly_orFault {result : Except Fault α} {next : α → Traced β} {passage : Passage β}
    (rest : ∀ value, result = .ok value → Cleanly declared keys (next value) passage) :
    Cleanly declared keys (untraced (orFault result) >>= next) passage := by
  cases result with
  | error fault =>
      intro before trace channel value after later channel' same isFollowing ran
      cases ran
  | ok value => exact rest value rfl

theorem cleanly_reported (severity : Severity) (message systemId pointer : String) :
    Cleanly declared keys (untraced (reportAt severity message systemId pointer))
      fun before trace _ after later => after = before ∧ later = trace :=
  (cleanly_quiet (steady_reportAt ..) (fun _ => ensures_reportAt rfl)
    fun _ => Ensures.clean fun _ _ _ _ _ => trivial).mono fun _ _ _ _ _ => And.right

/-- What reports an error leads nowhere. -/
theorem cleanly_error (message systemId pointer : String) (value : α) :
    Cleanly declared keys
      (untraced (reportAt .error message systemId pointer) >>= fun _ => pure value) passage := by
  have reports : Cleanly declared keys (untraced (reportAt .error message systemId pointer))
      fun _ _ _ _ _ => False :=
    cleanly_untraced (steady_reportAt ..) (fun _ => ensures_reportAt rfl) fun _ _ => clean_error
  exact (cleanly_bind reports fun _ => cleanly_pure value).mono
    fun _ _ _ _ _ ⟨_, _, _, impossible, _⟩ => impossible.elim

theorem cleanly_takeName (base source : String) :
    Cleanly declared keys (tracedTakeName base source) fun before trace name after later =>
      name = freshName before.names base ∧ after = before.reserve name source ∧
        later = trace.adding [{ base, given := name }] [] := by
  intro before trace channel name after later channel' same isFollowing ran
  cases ran
  exact ⟨Nat.le_refl _, same, isFollowing, fun _ => ⟨rfl, rfl, rfl⟩⟩

theorem cleanly_buildEnum (name systemId : String) (package : Json) (info : NodeInfo)
    (values : List Json) (valueType : String) (memberNames : Json) :
    Cleanly declared keys
      (untraced (buildEnum name systemId package info values valueType memberNames))
      fun before trace _ after later => ∃ members, membersOf memberNames values = .ok members ∧
        after = before.withEnum
          { name, package, valueType, members, description := info.description
            source := systemId ++ info.pointer } ∧
        later = trace :=
  cleanly_untraced (consists_buildEnum ..).steady (fun _ => ensures_buildEnum fun _ _ => rfl)
    fun _ _ => Ensures.clean (ensures_buildEnum fun members isMembers =>
      ⟨members, isMembers, rfl, rfl⟩)

/-- A class is built last of all, after its base and its fields. -/
theorem cleanly_buildClass (name systemId : String) (package : Json) (info : NodeInfo)
    {base : Traced (Option String)} {fields : Traced (List FieldDefinition)}
    {ofBase : Passage (Option String)} {ofFields : Passage (List FieldDefinition)}
    (cleanBase : Cleanly declared keys base ofBase)
    (cleanFields : Cleanly declared keys fields ofFields) :
    Cleanly declared keys (tracedBuildClass name systemId package info base fields)
      fun before trace _ last later => ∃ base middle between fields after,
        ofBase before trace base middle between ∧ ofFields middle between fields after later ∧
          last = after.withClass before.classes.length
            { name, package, base, fields, description := info.description
              source := systemId ++ info.pointer } := by
  refine (cleanly_get fun state _ => cleanly_bind (cleanly_reported ..) fun _ =>
    cleanly_bind cleanBase fun base => cleanly_bind cleanFields fun fields =>
      cleanly_modify (fun after => after.withClass state.classes.length
        { name, package, base, fields, description := info.description
          source := systemId ++ info.pointer }) fun _ => rfl).mono ?_
  rintro before trace _ last later ⟨_, _, _, ⟨rfl, rfl⟩, base, middle, between, isBase, fields,
    after, _, areFields, rfl, rfl⟩
  exact ⟨base, middle, between, fields, after, isBase, areFields, rfl⟩

theorem outcome_translating (document : Nat) (reference : Reference) (step : Traced TypeExpr)
    (state : State) (trace : Trace) (channel : Channel) :
    outcome (translating document reference step) state trace channel =
      match outcome step state trace channel with
      | (.ok (type, after), later, further) =>
          let built := after.size - state.size
          (.ok (type, after), later.adding [] [{ document, reference, type, built }], further)
      | (.error stop, later, further) => (.error stop, later, further) := by
  change outcome (step >>= fun type => do
    let built := (← get).size - state.size
    change fun trace => trace.adding [] [{ document, reference, type, built }]
    return type) state trace channel = _
  rw [outcome_bind]
  rcases outcome step state trace channel with ⟨stop | ⟨type, after⟩, later, further⟩ <;> rfl

theorem cleanly_translating (document : Nat) (reference : Reference) {step : Traced TypeExpr}
    {passage : Passage TypeExpr} (cleanly : Cleanly declared keys step passage) :
    Cleanly declared keys (translating document reference step)
      fun before trace type after last => ∃ later, passage before trace type after later ∧
        last = later.adding []
          [{ document, reference, type, built := after.size - before.size }] := by
  intro before trace channel type after last channel' same isFollowing ran
  rw [outcome_translating] at ran
  rcases began : step.outcome before trace channel with ⟨stop | ⟨_, _⟩, later, _⟩
  · simp [began] at ran
  · rw [began] at ran
    cases ran
    obtain ⟨steady, keeps, keepsOn, clean⟩ := cleanly same isFollowing began
    exact ⟨steady, keeps, keepsOn, fun noError => ⟨later, clean noError, rfl⟩⟩

/-- An alias that is not being followed yet is followed along a passage. -/
theorem cleanly_following {key : Key} (unknown : key ∉ keys) {traced : Traced α}
    (cleanly : Cleanly declared (keys ++ [key]) traced passage) :
    Cleanly declared keys (following key traced) fun before trace value after last =>
      ∃ later,
        passage before { trace with following := trace.following ++ [key] } value after later ∧
          last = { later with following := later.following.erase key } := by
  intro before trace channel value after last channel' same isFollowing ran
  rw [outcome_following] at ran
  rcases began : traced.outcome before { trace with following := trace.following ++ [key] } channel
    with ⟨result, later, _⟩
  rw [began] at ran
  cases ran
  have isFollowed : Trace.following { trace with following := trace.following ++ [key] } =
      keys ++ [key] := congrArg (· ++ [key]) isFollowing
  obtain ⟨steady, keeps, isFollowedOn, clean⟩ := cleanly same isFollowed began
  refine ⟨steady, keeps, ?_, fun noError => ⟨later, clean noError, rfl⟩⟩
  change later.following.erase key = keys
  rw [isFollowedOn, List.erase_append_right _ unknown, List.erase_cons_head, List.append_nil]

end Rules

/-! ## An analysis that reports no error -/

theorem steady_declareAll (setting : Setting) : Steady (declareAll setting) := by
  rw [declareAll, declareAll_eq]
  exact steady_forM fun named => (consists_declare ..).steady

theorem onChannel_buildAll {setting : Setting} {state built : State} {trace later : Trace}
    {channel channel' : Channel} (isFollowing : trace.following = [])
    (builds : (tracedBuildAll setting state.declarations).outcome state trace channel =
      (.ok ((), built), later, channel')) :
    onChannel ((buildAll setting state.declarations).run state) channel =
      (.ok ((), built), channel') := by
  obtain ⟨requests, translations, isOutcome, -⟩ :=
    traces_buildAll setting state.declarations channel (Eq.refl state.declarations) isFollowing
  rw [builds] at isOutcome
  exact Prod.ext (congrArg Prod.fst isOutcome).symm (congrArg (·.2.2) isOutcome).symm

/-- If no error is reported, what was built is the result, and no class inherits from itself. -/
theorem stages_of_tracedAnalysis {setting : Setting} {channel channel' : Channel}
    {result : State} {trace : Trace}
    (ran : (tracedAnalysis setting).outcome {} {} channel = (.ok ((), result), trace, channel'))
    (noError : channel'.errors ≤ channel.errors) :
    ∃ state between further,
      (onChannel ((declareAll setting).run {}) channel = (.ok ((), state), between) ∧
        between.errors ≤ channel.errors) ∧
      ((tracedBuildAll setting state.declarations).outcome state {} between =
        (.ok ((), result), trace, further) ∧ further.errors ≤ between.errors) ∧
      ∀ definition ∈ result.classes, ¬InheritsFromItself result.classes definition := by
  obtain ⟨_, state, _, between, declaring, others⟩ := exists_of_outcome_bind ran
  obtain ⟨declares, rfl⟩ := of_outcome_untraced declaring
  obtain ⟨_, _, _, _, getsDeclared, buildsOn⟩ := exists_of_outcome_bind others
  cases getsDeclared
  obtain ⟨_, built, later, further, builds, rest⟩ := exists_of_outcome_bind buildsOn
  obtain ⟨_, _, _, _, getsBuilt, cutsOn⟩ := exists_of_outcome_bind rest
  cases getsBuilt
  obtain ⟨classes, last, _, _, cutting, ends⟩ := exists_of_outcome_bind cutsOn
  cases ends
  obtain ⟨cuts, rfl⟩ := of_outcome_untraced cutting
  have early := steady_declareAll setting declares
  have middle := steady_forM (fun declaration => (consists_buildDeclaration ..).steady)
    (onChannel_buildAll (Eq.refl []) builds)
  have late := steady_cutCycles 0 built.classes cuts
  obtain ⟨rfl, rfl, acyclic⟩ := clean_cutCycles built.classes built cuts (by omega)
  exact ⟨state, between, further, ⟨declares, by omega⟩, ⟨builds, by omega⟩, acyclic⟩

end Analysis

end Typeloom
