import Typeloom.Report.Channel

/-!
# Computations that report

A computation that reports leads to a value, or stops because the listener cancels the run or
because of a fault.  What was reported before it stopped stays reported.
-/

namespace Typeloom

inductive Stop where
  | cancelled
  | fault (fault : Fault)
deriving DecidableEq, Repr, Inhabited

/-- A computation that reports to a channel. -/
abbrev Reporting (α : Type) := ExceptT Stop (StateM Channel) α

namespace Reporting

/-- Run a computation on a channel. -/
def onChannel {α : Type} (action : Reporting α) (channel : Channel) :
    Except Stop α × Channel :=
  (ExceptT.run action).run channel

theorem onChannel_bind {α β : Type} (action : Reporting α) (next : α → Reporting β)
    (channel : Channel) :
    onChannel (action >>= next) channel =
      match onChannel action channel with
      | (.ok value, after) => onChannel (next value) after
      | (.error stop, after) => (.error stop, after) := by
  simp only [onChannel, ExceptT.run_bind, StateT.run_bind]
  rcases action.run.run channel with ⟨stop | value, after⟩ <;> rfl

theorem onChannel_pure {α : Type} (value : α) (channel : Channel) :
    onChannel (pure value) channel = (.ok value, channel) := rfl

/-- What yields a result after something else does so because that other thing yields a value. -/
theorem exists_of_onChannel_bind {α β : Type} {action : Reporting α} {next : α → Reporting β}
    {channel after : Channel} {result : β}
    (returns : onChannel (action >>= next) channel = (.ok result, after)) :
    ∃ value between, onChannel action channel = (.ok value, between) ∧
      onChannel (next value) between = (.ok result, after) := by
  rw [onChannel_bind] at returns
  rcases outcome : onChannel action channel with ⟨stop | value, between⟩
  · simp [outcome] at returns
  · rw [outcome] at returns
    exact ⟨value, between, rfl, returns⟩

theorem exists_onChannel_eq_some {α β : Type} {action : Reporting (Option α)} {view : α → β}
    {seen : β} {channel : Channel}
    (outcome : (onChannel action channel).1.toOption.join.map view = some seen) :
    ∃ value after, onChannel action channel = (.ok (some value), after) ∧ view value = seen := by
  rcases ran : onChannel action channel with ⟨stop | value?, after⟩
  · rw [ran] at outcome
    cases outcome
  · rw [ran] at outcome
    obtain ⟨value, rfl, same⟩ := Option.map_eq_some_iff.mp outcome
    exact ⟨value, after, rfl, same⟩

/-- Stop because of a fault. -/
def fail {α : Type} (fault : Fault) : Reporting α :=
  throw (.fault fault)

/-- The value of a computation that cannot report, or its fault. -/
def ofExcept {α : Type} : Except Fault α → Reporting α
  | .ok value => pure value
  | .error fault => fail fault

theorem onChannel_ofExcept_ok {α : Type} (value : α) (channel : Channel) :
    onChannel (ofExcept (.ok value)) channel = (.ok value, channel) := rfl

theorem of_onChannel_ofExcept {α : Type} {result : Except Fault α} {channel after : Channel}
    {value : α} (returns : onChannel (ofExcept result) channel = (.ok value, after)) :
    result = .ok value ∧ after = channel := by
  cases result with
  | ok result =>
      cases returns
      exact ⟨rfl, rfl⟩
  | error fault => cases returns

def tell (event : Event) : Reporting Unit :=
  modify fun channel => channel.tell event

def notify (diagnostic : Diagnostic) : Reporting Unit :=
  modify fun channel => channel.notify diagnostic.severity diagnostic

theorem onChannel_notify (diagnostic : Diagnostic) (channel : Channel) :
    onChannel (notify diagnostic) channel =
      (.ok (), channel.notify diagnostic.severity diagnostic) := rfl

def report (severity : Severity) (message : String) (systemId location : Option String) :
    Reporting Unit :=
  notify { severity, message, systemId, location }

/-- Stop if the listener cancels the run. -/
def poll : Reporting Unit := do
  let channel ← get
  let (cancels, channel) := channel.poll
  set channel
  if cancels then throw .cancelled

theorem onChannel_poll (channel : Channel) :
    onChannel poll channel =
      (if channel.poll.1 then .error .cancelled else .ok (), channel.poll.2) := by
  change onChannel (if channel.poll.1 then throw .cancelled else pure ()) channel.poll.2 = _
  split <;> rfl

/-- Whether a computation reports an error, with its value. -/
def watching {α : Type} (action : Reporting α) : Reporting (α × Bool) := do
  let before := (← get).errors
  let value ← action
  let after := (← get).errors
  return (value, before < after)

theorem of_onChannel_watching {α : Type} {action : Reporting α} {channel after : Channel}
    {value : α} {hadError : Bool}
    (returns : onChannel (watching action) channel = (.ok (value, hadError), after)) :
    onChannel action channel = (.ok value, after) ∧
      hadError = decide (channel.errors < after.errors) := by
  obtain ⟨_, _, begins, rest⟩ := exists_of_onChannel_bind returns
  cases begins
  obtain ⟨_, _, acts, rest⟩ := exists_of_onChannel_bind rest
  obtain ⟨_, _, ends, last⟩ := exists_of_onChannel_bind rest
  cases ends
  cases last
  exact ⟨acts, rfl⟩

/-- What yields a result unless an error is reported has reported none. -/
theorem exists_of_onChannel_unless {α β : Type} {action : Reporting α} {result? : α → Option β}
    {next : α × Bool → Reporting (Option β)} {channel after : Channel} {result : β}
    (returns : onChannel (watching action >>= next) channel = (.ok (some result), after))
    (isNext : ∀ value hadError,
      next (value, hadError) = pure (if hadError then none else result? value)) :
    ∃ value, onChannel action channel = (.ok value, after) ∧ result? value = some result ∧
      after.errors ≤ channel.errors := by
  obtain ⟨⟨value, hadError⟩, between, watched, last⟩ := exists_of_onChannel_bind returns
  obtain ⟨acts, isError⟩ := of_onChannel_watching watched
  rw [isNext] at last
  cases hadError with
  | true => cases last
  | false =>
      obtain ⟨yields, rfl⟩ := Prod.mk.inj last
      have noError := of_decide_eq_false isError.symm
      exact ⟨value, acts, Except.ok.inj yields, Nat.le_of_not_lt noError⟩

/-- Take steps from a state until there is no next state, which then is the last one. -/
def repeated {State : Type} (step : State → Reporting (Option State)) (state : State) :
    Reporting State :=
  have : Nonempty State := ⟨state⟩
  repeatM (fun state => do
    match ← step state with
    | none => return .inr state
    | some next => return .inl next) state

theorem onChannel_repeated {State : Type} (step : State → Reporting (Option State))
    (state : State) (channel : Channel) :
    onChannel (repeated step state) channel =
      match onChannel (step state) channel with
      | (.ok none, after) => (.ok state, after)
      | (.ok (some next), after) => onChannel (repeated step next) after
      | (.error stop, after) => (.error stop, after) := by
  have : Nonempty State := ⟨state⟩
  rw [repeated, repeatM_eq_of_monadTail, repeatM.body, onChannel_bind, onChannel_bind]
  rcases onChannel (step state) channel with ⟨stop | _ | next, after⟩ <;> rfl

end Reporting

end Typeloom
