import Typeloom.Fault

/-!
# Computations that change a state and may fail

What has been changed before a failure stays changed.
-/

namespace Typeloom

theorem Except.eq_ok_of_toOption {ε α : Type} {result : Except ε α} {value : α}
    (isValue : result.toOption = some value) : result = .ok value := by
  cases result with
  | error error => cases isValue
  | ok found => exact congrArg Except.ok (Option.some.inj isValue)

variable {State α β : Type}

theorem run_bind (action : ExceptT Fault (StateM State) α)
    (next : α → ExceptT Fault (StateM State) β) (state : State) :
    (action >>= next).run state =
      match action.run state with
      | (.ok value, after) => (next value).run after
      | (.error fault, after) => (.error fault, after) := by
  change (action.run state |> fun (result, after) => ExceptT.bindCont next result after) = _
  rcases action.run state with ⟨fault | value, after⟩ <;> rfl

theorem run_get_bind (next : State → ExceptT Fault (StateM State) α) (state : State) :
    (get >>= next).run state = (next state).run state :=
  rfl

theorem run_tryCatch (action : ExceptT Fault (StateM State) α)
    (handle : Fault → ExceptT Fault (StateM State) α) (state : State) :
    (tryCatch action handle).run state =
      match action.run state with
      | (.ok value, after) => (.ok value, after)
      | (.error fault, after) => (handle fault).run after := by
  unfold tryCatch instMonadExceptOfMonadExceptOf tryCatchThe
  simp only [MonadExceptOf.tryCatch, ExceptT.tryCatch, ExceptT.run, ExceptT.mk, bind, StateT.bind]
  rcases action state with ⟨fault | value, after⟩ <;> rfl

/-- Whether the system refuses something and a computation ends with that. -/
def IsRefused (result : Except Fault α) : Prop :=
  ∃ error, result = .error (.system error)

/-- What is refused at first is refused as a whole. -/
theorem IsRefused.bind {first : ExceptT Fault (StateM State) α}
    {next : α → ExceptT Fault (StateM State) β} {state : State}
    (isRefused : IsRefused (first.run state).1) : IsRefused ((first >>= next).run state).1 := by
  obtain ⟨error, isError⟩ := isRefused
  rw [run_bind]
  rcases ran : first.run state with ⟨fault | value, after⟩
  · rw [ran] at isError
    exact ⟨error, congrArg Except.error (Except.error.inj isError)⟩
  · rw [ran] at isError
    cases isError

end Typeloom
