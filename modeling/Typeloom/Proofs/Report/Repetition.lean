import Typeloom.Report.Reporting

/-!
# Runs of repeated steps

A step that is repeated passes through states until there is no next one or until it stops.  The
states that it passes through say what it does on the way.
-/

namespace Typeloom

namespace Reporting

variable {State : Type} {step : State → Reporting (Option State)}

/-- Repeating a step, beginning in a state and on a channel, passes through states, of which that
state is the first one, and ends with a result and on a channel. -/
inductive Passes (step : State → Reporting (Option State)) :
    State → Channel → List State → Except Stop State → Channel → Prop where
  | last {state : State} {channel after : Channel} :
      onChannel (step state) channel = (.ok none, after) →
      Passes step state channel [state] (.ok state) after
  | stopped {state : State} {channel after : Channel} {stop : Stop} :
      onChannel (step state) channel = (.error stop, after) →
      Passes step state channel [state] (.error stop) after
  | next {state next : State} {channel between after : Channel} {states : List State}
      {result : Except Stop State} :
      onChannel (step state) channel = (.ok (some next), between) →
      Passes step next between states result after →
      Passes step state channel (state :: states) result after

/-- A run that passes through finitely many states ends as the repetition ends. -/
theorem Passes.onChannel_eq {state : State} {channel after : Channel} {states : List State}
    {result : Except Stop State} (passes : Passes step state channel states result after) :
    onChannel (repeated step state) channel = (result, after) := by
  induction passes with
  | last taken => rw [onChannel_repeated, taken]
  | stopped taken => rw [onChannel_repeated, taken]
  | next taken _ ih =>
      rw [onChannel_repeated, taken]
      exact ih

/-- A run depends on nothing but what the step does in the states that it passes through. -/
theorem Passes.congr {other : State → Reporting (Option State)} {state : State}
    {channel after : Channel} {states : List State} {result : Except Stop State}
    (passes : Passes step state channel states result after)
    (same : ∀ passed ∈ states, step passed = other passed) :
    Passes other state channel states result after := by
  induction passes with
  | last taken => exact .last (same _ List.mem_cons_self ▸ taken)
  | stopped taken => exact .stopped (same _ List.mem_cons_self ▸ taken)
  | next taken _ ih =>
      exact .next (same _ List.mem_cons_self ▸ taken)
        (ih fun passed occurs => same passed (List.mem_cons_of_mem _ occurs))

/-- What every step keeps holds of the last state. -/
theorem Passes.keeps (holds : State → Prop) {state final : State} {channel after : Channel}
    {states : List State} (passes : Passes step state channel states (.ok final) after)
    (keeps : ∀ state next channel after, holds state →
      onChannel (step state) channel = (.ok (some next), after) → holds next)
    (begins : holds state) : holds final := by
  generalize isLast : Except.ok final = result at passes
  induction passes with
  | last => cases isLast; exact begins
  | stopped => cases isLast
  | next taken _ ih => exact ih (keeps _ _ _ _ begins taken) isLast

/-- Nothing comes after the last state. -/
theorem Passes.exists_last {state final : State} {channel after : Channel} {states : List State}
    (passes : Passes step state channel states (.ok final) after) :
    ∃ before, onChannel (step final) before = (.ok none, after) := by
  generalize isLast : Except.ok final = result at passes
  induction passes with
  | last taken => cases isLast; exact ⟨_, taken⟩
  | stopped => cases isLast
  | next _ _ ih => exact ih isLast

end Reporting

/-!
## What is returned

A property of every value that a computation returns, on whatever channel it runs.  Nothing is
said of a computation that is cancelled or meets a fault.
-/

namespace Reporting

variable {α β : Type}

/-- Whether a property holds of every value that a computation returns. -/
def Returns (post : α → Prop) (action : Reporting α) : Prop :=
  ∀ channel after value, onChannel action channel = (.ok value, after) → post value

theorem Returns.mono {action : Reporting α} {weak strong : α → Prop}
    (returned : Returns strong action) (implies : ∀ value, strong value → weak value) :
    Returns weak action :=
  fun channel after value returns => implies value (returned channel after value returns)

theorem returns_pure {value : α} {post : α → Prop} (holds : post value) :
    Returns post (pure value) := by
  rintro channel after _ ⟨⟩
  exact holds

theorem returns_fail {fault : Fault} {post : α → Prop} : Returns post (fail fault) := by
  rintro channel after _ ⟨⟩

theorem returns_ofExcept {result : Except Fault α} :
    Returns (fun value => result = .ok value) (ofExcept result) :=
  fun _ _ _ returns => (of_onChannel_ofExcept returns).1

theorem returns_bind {action : Reporting α} {next : α → Reporting β} {middle : α → Prop}
    {post : β → Prop} (first : Returns middle action)
    (rest : ∀ value, middle value → Returns post (next value)) :
    Returns post (action >>= next) := by
  intro channel after result returns
  obtain ⟨value, between, begins, ends⟩ := exists_of_onChannel_bind returns
  exact rest value (first channel between value begins) between after result ends

theorem returns_true (action : Reporting α) : Returns (fun _ => True) action :=
  fun _ _ _ _ => trivial

/-- Whatever comes first, what comes next returns values with a property. -/
theorem returns_after {action : Reporting α} {next : α → Reporting β} {post : β → Prop}
    (rest : ∀ value, Returns post (next value)) : Returns post (action >>= next) :=
  returns_bind (returns_true action) fun value _ => rest value

/-- What holds of every value that is returned for an item holds of all of them. -/
theorem returns_mapM {items : List α} {step : α → Reporting β} {holds : β → Prop}
    (each : ∀ item ∈ items, Returns holds (step item)) :
    Returns (fun values => ∀ value ∈ values, holds value) (items.mapM step) := by
  induction items with
  | nil => exact returns_pure (by simp)
  | cons item rest ih =>
      obtain ⟨first, others⟩ := List.forall_mem_cons.mp each
      rw [List.mapM_cons]
      refine returns_bind first fun value ofFirst => ?_
      refine returns_bind (ih others) fun values ofRest => ?_
      exact returns_pure (List.forall_mem_cons.mpr ⟨ofFirst, ofRest⟩)

end Reporting

end Typeloom
