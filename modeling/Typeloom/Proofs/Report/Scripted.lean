import Typeloom.Proofs.Report.Repetition
import Typeloom.Proofs.Report.Transcript

/-!
# Computations with a transcript

What a computation does on its channel does not depend on the channel, except that it is cut short
when the listener cancels the run.  A computation has a transcript and a result, or goes on for
ever and polls the listener again and again on the way.
-/

namespace Typeloom

namespace Reporting

open Transcript

/-- How a computation ends on a channel on which its acts have been done. -/
def outcome {α : Type} (result : Except Fault α) : Except Channel Channel → Except Stop α × Channel
  | .ok after => (result.mapError .fault, after)
  | .error cut => (.error .cancelled, cut)

/-- A computation does the acts of a transcript and ends with a result, unless the listener cancels
the run on the way. -/
def Ends {α : Type} (action : Reporting α) (transcript : Transcript)
    (result : Except Fault α) : Prop :=
  ∀ channel, onChannel action channel = outcome result (play transcript channel)

/-- A computation begins with the acts of a transcript: it is cancelled if the listener cancels the
run while they are done. -/
def Begins {α : Type} (action : Reporting α) (transcript : Transcript) : Prop :=
  ∀ channel cut, play transcript channel = .error cut →
    onChannel action channel = (.error .cancelled, cut)

/-- A computation comes to an end on every channel, if only because it is cancelled. -/
def Halts {α : Type} (action : Reporting α) : Prop :=
  ∃ transcript result, Ends action transcript result

/-- A computation polls the listener more often than any number says, and tells of nothing that is
not plain. -/
def Endless {α : Type} (action : Reporting α) : Prop :=
  ∀ count, ∃ transcript, IsPlain transcript ∧ Begins action transcript ∧ count < polls transcript

/-- A computation is endless, or has a transcript and a result of which a property holds. -/
def Scripted {α : Type} (post : Transcript → Except Fault α → Prop) (action : Reporting α) : Prop :=
  (∃ transcript result, post transcript result ∧ Ends action transcript result) ∨ Endless action

/-- A computation is endless, or has a plain transcript. -/
def Reports {α : Type} (action : Reporting α) : Prop :=
  Scripted (fun transcript _ => IsPlain transcript) action

variable {α β : Type}

/-! ## Putting transcripts together -/

theorem Ends.begins {action : Reporting α} {transcript : Transcript} {result : Except Fault α}
    (ends : Ends action transcript result) : Begins action transcript := by
  intro channel cut isCut
  rw [ends, isCut]
  rfl

theorem Ends.bind {action : Reporting α} {next : α → Reporting β} {first rest : Transcript}
    {value : α} {result : Except Fault β} (ends : Ends action first (.ok value))
    (endsNext : Ends (next value) rest result) : Ends (action >>= next) (first ++ rest) result := by
  intro channel
  rw [onChannel_bind, ends]
  cases played : play first channel with
  | ok between =>
      rw [play_append_of_ok played]
      exact endsNext between
  | error cut =>
      rw [play_append_of_error played]
      rfl

theorem Ends.bind_last {action : Reporting α} {next : α → Reporting β} {transcript : Transcript}
    {value : α} {result : Except Fault β} (ends : Ends action transcript (.ok value))
    (endsNext : Ends (next value) [] result) : Ends (action >>= next) transcript result := by
  have both := ends.bind endsNext
  rwa [List.append_nil] at both

theorem Ends.bind_error {action : Reporting α} {transcript : Transcript} {fault : Fault}
    (ends : Ends action transcript (.error fault)) (next : α → Reporting β) :
    Ends (action >>= next) transcript (.error fault) := by
  intro channel
  rw [onChannel_bind, ends]
  cases play transcript channel <;> rfl

theorem Halts.bind {action : Reporting α} {next : α → Reporting β}
    (halts : Halts action) (haltsNext : ∀ value, Halts (next value)) : Halts (action >>= next) := by
  obtain ⟨transcript, result, ends⟩ := halts
  cases result with
  | error fault => exact ⟨transcript, _, ends.bind_error next⟩
  | ok value =>
      obtain ⟨rest, last, endsNext⟩ := haltsNext value
      exact ⟨transcript ++ rest, last, ends.bind endsNext⟩

theorem Ends.begins_bind {action : Reporting α} {next : α → Reporting β} {first rest : Transcript}
    {value : α} (ends : Ends action first (.ok value)) (begins : Begins (next value) rest) :
    Begins (action >>= next) (first ++ rest) := by
  intro channel cut isCut
  rw [onChannel_bind, ends]
  cases played : play first channel with
  | ok between =>
      rw [play_append_of_ok played] at isCut
      exact begins between cut isCut
  | error cut' =>
      rw [play_append_of_error played] at isCut
      cases isCut
      rfl

theorem Begins.bind {action : Reporting α} {transcript : Transcript}
    (begins : Begins action transcript) (next : α → Reporting β) :
    Begins (action >>= next) transcript := by
  intro channel cut isCut
  rw [onChannel_bind, begins channel cut isCut]

theorem ends_pure (value : α) : Ends (pure value) [] (.ok value) :=
  fun _ => rfl

theorem ends_ofExcept (result : Except Fault α) : Ends (ofExcept result) [] result := by
  intro channel
  cases result <;> rfl

theorem Ends.after_ofExcept {next : α → Reporting β} {transcript : Transcript} {value : α}
    {result : Except Fault β} (ends : Ends (next value) transcript result) :
    Ends (ofExcept (.ok value) >>= next) transcript result :=
  (ends_ofExcept (.ok value)).bind ends

theorem ends_tell (event : Event) : Ends (tell event) [.tell event] (.ok ()) :=
  fun _ => rfl

theorem ends_notify (diagnostic : Diagnostic) :
    Ends (notify diagnostic) [.notify diagnostic] (.ok ()) :=
  fun _ => rfl

theorem ends_poll : Ends poll [.poll] (.ok ()) := by
  intro channel
  rw [onChannel_poll, play_singleton, Act.play]
  cases channel.poll.1 <;> rfl

theorem ends_attune (quiet verbose : Bool) :
    Ends (modify fun channel => { channel with quiet, verbose }) [.attune quiet verbose] (.ok ()) :=
  fun _ => rfl

theorem Ends.watching {action : Reporting α} {transcript : Transcript} {result : Except Fault α}
    (ends : Ends action transcript result) :
    Ends (watching action) transcript
      (result.map fun value => (value, decide (0 < errors transcript))) := by
  intro channel
  change onChannel (action >>= _) channel = _
  rw [onChannel_bind, ends]
  cases played : play transcript channel with
  | error cut => rfl
  | ok after =>
      cases result with
      | error fault => rfl
      | ok value =>
          have counts : after.errors = channel.errors + errors transcript := by
            rw [apply_of_play played, errors_apply]
          change (Except.ok (value, decide (channel.errors < after.errors)), after) =
            (Except.ok (value, decide (0 < errors transcript)), after)
          simp [counts]

theorem Begins.watching {action : Reporting α} {transcript : Transcript}
    (begins : Begins action transcript) : Begins (watching action) transcript := by
  intro channel cut isCut
  change onChannel (action >>= _) channel = _
  rw [onChannel_bind, begins channel cut isCut]

theorem repeated_eq {State : Type} (step : State → Reporting (Option State)) (state : State) :
    repeated step state =
      step state >>= fun next? => next?.elim (pure state) (repeated step) := by
  refine funext fun channel => ?_
  refine (onChannel_repeated step state channel).trans ?_
  refine Eq.trans ?_ (onChannel_bind _ _ channel).symm
  rcases onChannel (step state) channel with ⟨stop | _ | next, after⟩ <;> rfl

/-! ## What is scripted -/

theorem Scripted.mono {action : Reporting α} {weak strong : Transcript → Except Fault α → Prop}
    (scripted : Scripted strong action)
    (implies : ∀ transcript result, strong transcript result → weak transcript result) :
    Scripted weak action :=
  scripted.imp_left fun ⟨transcript, result, holds, ends⟩ =>
    ⟨transcript, result, implies transcript result holds, ends⟩

theorem Endless.bind {action : Reporting α} (endless : Endless action)
    (next : α → Reporting β) : Endless (action >>= next) := by
  intro count
  obtain ⟨transcript, isPlain, begins, more⟩ := endless count
  exact ⟨transcript, isPlain, begins.bind next, more⟩

theorem Ends.endless_bind {action : Reporting α} {next : α → Reporting β} {first : Transcript}
    {value : α} (ends : Ends action first (.ok value)) (isPlain : IsPlain first)
    (endless : Endless (next value)) : Endless (action >>= next) := by
  intro count
  obtain ⟨rest, isPlainRest, begins, more⟩ := endless count
  refine ⟨first ++ rest, isPlain_append.mpr ⟨isPlain, isPlainRest⟩, ends.begins_bind begins, ?_⟩
  rw [polls_append]
  omega

/-- What comes next is scripted with what comes before it in mind. -/
theorem Scripted.bind {action : Reporting α} {next : α → Reporting β}
    {post : Transcript → Except Fault β → Prop}
    (first : Scripted (fun transcript result => IsPlain transcript ∧
      (∀ value, result = .ok value →
        Scripted (fun rest => post (transcript ++ rest)) (next value)) ∧
      ∀ fault, result = .error fault → post transcript (.error fault)) action) :
    Scripted post (action >>= next) := by
  rcases first with ⟨transcript, result, ⟨isPlain, ofValue, ofFault⟩, ends⟩ | endless
  · cases result with
    | error fault => exact Or.inl ⟨transcript, _, ofFault fault rfl, ends.bind_error next⟩
    | ok value =>
        rcases ofValue value rfl with ⟨rest, result, holds, endsNext⟩ | endless
        · exact Or.inl ⟨_, result, holds, ends.bind endsNext⟩
        · exact Or.inr (ends.endless_bind isPlain endless)
  · exact Or.inr (endless.bind next)

theorem Scripted.bind_pure {action : Reporting α} {view : α → β}
    {post : Transcript → Except Fault β → Prop}
    (scripted : Scripted (fun transcript result => post transcript (result.map view)) action) :
    Scripted post (action >>= fun value => pure (view value)) := by
  rcases scripted with ⟨transcript, result, holds, ends⟩ | endless
  · refine Or.inl ⟨transcript, _, holds, ?_⟩
    cases result with
    | error fault => exact ends.bind_error _
    | ok value => exact ends.bind_last (ends_pure _)
  · exact Or.inr (endless.bind _)

theorem scripted_pure {value : α} {post : Transcript → Except Fault α → Prop}
    (holds : post [] (.ok value)) : Scripted post (pure value) :=
  Or.inl ⟨[], _, holds, ends_pure value⟩

theorem scripted_ofExcept {result : Except Fault α} {post : Transcript → Except Fault α → Prop}
    (holds : post [] result) : Scripted post (ofExcept result) :=
  Or.inl ⟨[], _, holds, ends_ofExcept result⟩

theorem Scripted.watching {action : Reporting α}
    {post : Transcript → Except Fault (α × Bool) → Prop}
    (scripted : Scripted (fun transcript result =>
      post transcript (result.map fun value => (value, decide (0 < errors transcript)))) action) :
    Scripted post (watching action) := by
  rcases scripted with ⟨transcript, result, holds, ends⟩ | endless
  · exact Or.inl ⟨transcript, _, holds, ends.watching⟩
  · refine Or.inr fun count => ?_
    obtain ⟨transcript, isPlain, begins, more⟩ := endless count
    exact ⟨transcript, isPlain, begins.watching, more⟩

/-- A computation has a transcript and a result of which a property holds, or polls the listener as
often as a number says. -/
def Progresses (count : Nat) (post : Transcript → Except Fault α → Prop)
    (action : Reporting α) : Prop :=
  (∃ transcript result, post transcript result ∧ Ends action transcript result) ∨
    ∃ transcript, IsPlain transcript ∧ Begins action transcript ∧ count ≤ polls transcript

theorem scripted_of_progresses {action : Reporting α} {post : Transcript → Except Fault α → Prop}
    (progresses : ∀ count, Progresses count post action) : Scripted post action := by
  by_cases finite : ∃ transcript result, post transcript result ∧ Ends action transcript result
  · exact Or.inl finite
  · exact Or.inr fun count => (progresses (count + 1)).resolve_left finite

theorem progresses_zero (post : Transcript → Except Fault α → Prop) (action : Reporting α) :
    Progresses 0 post action := by
  refine Or.inr ⟨[], isPlain_nil, ?_, Nat.le_refl 0⟩
  intro channel cut isCut
  cases isCut

theorem Ends.progresses_bind {action : Reporting α} {next : α → Reporting β} {first : Transcript}
    {value : α} {count : Nat} {post : Transcript → Except Fault β → Prop}
    (ends : Ends action first (.ok value)) (isPlain : IsPlain first)
    (progresses : Progresses count (fun rest => post (first ++ rest)) (next value)) :
    Progresses (polls first + count) post (action >>= next) := by
  rcases progresses with ⟨rest, result, holds, endsNext⟩ | ⟨rest, isPlainRest, begins, enough⟩
  · exact Or.inl ⟨first ++ rest, result, holds, ends.bind endsNext⟩
  · refine Or.inr ⟨first ++ rest, isPlain_append.mpr ⟨isPlain, isPlainRest⟩,
      ends.begins_bind begins, ?_⟩
    rw [polls_append]
    omega

theorem Progresses.mono {action : Reporting α} {count : Nat}
    {weak strong : Transcript → Except Fault α → Prop}
    (progresses : Progresses count strong action)
    (implies : ∀ transcript result, strong transcript result → weak transcript result) :
    Progresses count weak action :=
  progresses.imp_left fun ⟨transcript, result, holds, ends⟩ =>
    ⟨transcript, result, implies transcript result holds, ends⟩

theorem Progresses.le {action : Reporting α} {count less : Nat}
    {post : Transcript → Except Fault α → Prop} (progresses : Progresses count post action)
    (isLess : less ≤ count) : Progresses less post action :=
  progresses.imp_right fun ⟨transcript, isPlain, begins, enough⟩ =>
    ⟨transcript, isPlain, begins, Nat.le_trans isLess enough⟩

section Repeated

variable {State : Type} {step : State → Reporting (Option State)}
  {given : Prop} {invariant : State → Transcript → Prop} {distance : State → Nat}

/-- What is done after a past is plain, and the last state fits to all that has been done.  In a
given case there is a last state. -/
def Kept (given : Prop) (invariant : State → Transcript → Prop) (past transcript : Transcript)
    (result : Except Fault State) : Prop :=
  IsPlain transcript ∧ (∀ last, result = .ok last → invariant last (past ++ transcript)) ∧
    (given → ∃ last, result = .ok last)

theorem Kept.append {past first rest : Transcript} {result : Except Fault State}
    (kept : Kept given invariant (past ++ first) rest result) (isPlain : IsPlain first) :
    Kept given invariant past (first ++ rest) result := by
  refine ⟨isPlain_append.mpr ⟨isPlain, kept.1⟩, fun last isLast => ?_, kept.2.2⟩
  rw [← List.append_assoc]
  exact kept.2.1 last isLast

/-- A step has a plain transcript.  It polls the listener or comes closer to the end, and keeps an
invariant of the state and of what has been done so far.  In a given case it meets no fault. -/
structure Approach (given : Prop) (invariant : State → Transcript → Prop) (distance : State → Nat)
    (past transcript : Transcript) (state : State) (result : Except Fault (Option State)) :
    Prop where
  isPlain : IsPlain transcript
  last : result = .ok none → invariant state (past ++ transcript)
  next : ∀ next, result = .ok (some next) → invariant next (past ++ transcript)
  closer : ∀ next, result = .ok (some next) → polls transcript = 0 → distance next < distance state
  returns : given → ∃ next?, result = .ok next?

def Approaches (given : Prop) (invariant : State → Transcript → Prop) (distance : State → Nat)
    (step : State → Reporting (Option State)) : Prop :=
  ∀ state past, invariant state past → ∃ transcript result,
    Approach given invariant distance past transcript state result ∧
      Ends (step state) transcript result

theorem progresses_repeated (approaches : Approaches given invariant distance step) (count : Nat)
    (state : State) (past : Transcript) (holds : invariant state past) :
    Progresses count (Kept given invariant past) (repeated step state) := by
  -- By induction on the number of polls, and on the distance between two of them.
  induction count generalizing state past with
  | zero => exact progresses_zero _ _
  | succ count ih =>
      induction far : distance state using Nat.strongRecOn generalizing state past with
      | ind number closer =>
          obtain ⟨transcript, result, approach, ends⟩ := approaches state past holds
          rw [repeated_eq]
          match result with
          | .error fault =>
              refine Or.inl ⟨transcript, _, ⟨approach.isPlain, ?_, ?_⟩, ends.bind_error _⟩
              · exact fun last isLast => nomatch isLast
              · exact fun isGiven => (approach.returns isGiven).elim fun _ isOk => nomatch isOk
          | .ok none =>
              refine Or.inl ⟨transcript, .ok state, ⟨approach.isPlain, ?_, fun _ => ⟨state, rfl⟩⟩,
                ends.bind_last (ends_pure state)⟩
              rintro _ ⟨⟩
              exact approach.last rfl
          | .ok (some next) =>
              have holdsNext := approach.next next rfl
              have goesOn {number : Nat} (further : Progresses number
                  (Kept given invariant (past ++ transcript)) (repeated step next)) :
                  Progresses (polls transcript + number) (Kept given invariant past)
                    (step state >>= fun next? => next?.elim (pure state) (repeated step)) :=
                ends.progresses_bind approach.isPlain
                  (further.mono fun _ _ kept => kept.append approach.isPlain)
              by_cases silent : polls transcript = 0
              · have comesCloser := approach.closer next rfl silent
                have further := closer _ (far ▸ comesCloser) next _ holdsNext rfl
                exact (goesOn further).le (by omega)
              · exact (goesOn (ih next _ holdsNext)).le (by omega)

/-- A step that is repeated ends, or polls the listener again and again.  What every step keeps
holds in the end. -/
theorem scripted_repeated {state : State} (approaches : Approaches given invariant distance step)
    (begins : invariant state []) :
    Scripted (Kept given invariant []) (repeated step state) :=
  scripted_of_progresses fun count => progresses_repeated approaches count state [] begins

/-- A step that keeps an invariant, and polls the listener each time, is repeated for ever. -/
theorem endless_repeated {holds : State → Prop}
    (goesOn : ∀ state, holds state → ∃ transcript next, IsPlain transcript ∧
      0 < polls transcript ∧ Ends (step state) transcript (.ok (some next)) ∧ holds next)
    {state : State} (begins : holds state) : Endless (repeated step state) := by
  intro count
  induction count generalizing state with
  | zero =>
      obtain ⟨transcript, next, isPlain, asks, ends, -⟩ := goesOn state begins
      refine ⟨transcript, isPlain, ?_, asks⟩
      rw [repeated_eq]
      exact ends.begins.bind _
  | succ count ih =>
      obtain ⟨transcript, next, isPlain, asks, ends, holdsNext⟩ := goesOn state begins
      obtain ⟨rest, isPlainRest, beginsRest, more⟩ := ih holdsNext
      refine ⟨transcript ++ rest, isPlain_append.mpr ⟨isPlain, isPlainRest⟩, ?_, ?_⟩
      · rw [repeated_eq]
        exact ends.begins_bind beginsRest
      · rw [polls_append]
        omega

end Repeated

/-! ## What becomes of a channel -/

/-- A computation ends as it does without a listener if there are no more polls than are
answered with no. -/
theorem Ends.onChannel_of_le {action : Reporting α} {transcript : Transcript}
    {result : Except Fault α} {channel : Channel} (ends : Ends action transcript result)
    (few : ∀ limit, channel.cancelAfter = some limit →
      polls transcript ≤ limit - channel.polls) :
    onChannel action channel = (result.mapError .fault, apply transcript channel) := by
  rw [ends, play_of_le few]
  rfl

theorem Ends.onChannel_of_never {action : Reporting α} {transcript : Transcript}
    {result : Except Fault α} {channel : Channel} (ends : Ends action transcript result)
    (never : channel.cancelAfter = none) :
    onChannel action channel = (result.mapError .fault, apply transcript channel) :=
  ends.onChannel_of_le fun _ isLimited => nomatch never.symm.trans isLimited

/-- A computation is cancelled at the first poll that is answered with yes. -/
theorem Begins.onChannel_of_lt {action : Reporting α} {transcript : Transcript} {limit : Nat}
    {channel : Channel} (begins : Begins action transcript)
    (limited : channel.cancelAfter = some limit)
    (more : limit - channel.polls < polls transcript) :
    onChannel action channel =
      (.error .cancelled, apply (upTo (limit - channel.polls) transcript) channel) :=
  begins channel _ (play_of_lt limited more)

/-- What a computation begins with makes no more polls than the whole computation. -/
theorem Ends.polls_le_of_begins {action : Reporting α} {transcript other : Transcript}
    {result : Except Fault α} (ends : Ends action transcript result)
    (begins : Begins action other) : polls other ≤ polls transcript := by
  refine Nat.le_of_not_lt fun more => ?_
  let channel : Channel := { cancelAfter := some (polls transcript) }
  have isLimited : channel.cancelAfter = some (polls transcript) := rfl
  have isCut := begins.onChannel_of_lt isLimited more
  rw [ends.onChannel_of_le (by rintro _ ⟨⟩; exact Nat.le_refl _)] at isCut
  cases result <;> cases isCut

theorem Ends.not_endless {action : Reporting α} {transcript : Transcript}
    {result : Except Fault α} (ends : Ends action transcript result) : ¬Endless action := by
  intro endless
  obtain ⟨longer, -, begins, more⟩ := endless (polls transcript)
  exact Nat.not_le_of_lt more (ends.polls_le_of_begins begins)

theorem Scripted.exists_ends {action : Reporting α} {post : Transcript → Except Fault α → Prop}
    (scripted : Scripted post action) (halts : Halts action) :
    ∃ transcript result, post transcript result ∧ Ends action transcript result :=
  scripted.resolve_right fun endless => by
    obtain ⟨_, _, ends⟩ := halts
    exact ends.not_endless endless

/-- A scripted computation ends, or is cancelled at the first poll that is answered with yes. -/
theorem Scripted.outcome {action : Reporting α} {post : Transcript → Except Fault α → Prop}
    (scripted : Scripted post action) (channel : Channel)
    (halts : channel.cancelAfter = none → Halts action) :
    (∃ transcript result, post transcript result ∧
      onChannel action channel = (result.mapError .fault, apply transcript channel)) ∨
    ∃ count transcript, (IsPlain transcript ∨ ∃ result, post transcript result) ∧
      count < polls transcript ∧
      onChannel action channel = (.error .cancelled, apply (upTo count transcript) channel) := by
  cases limited : channel.cancelAfter with
  | none =>
      obtain ⟨transcript, result, holds, ends⟩ := scripted.exists_ends (halts limited)
      exact Or.inl ⟨transcript, result, holds, ends.onChannel_of_never limited⟩
  | some limit =>
      rcases scripted with ⟨transcript, result, holds, ends⟩ | endless
      · rcases Nat.lt_or_ge (limit - channel.polls) (polls transcript) with more | few
        · exact Or.inr ⟨_, transcript, Or.inr ⟨result, holds⟩, more,
            ends.begins.onChannel_of_lt limited more⟩
        · refine Or.inl ⟨transcript, result, holds, ends.onChannel_of_le fun other isLimited => ?_⟩
          obtain rfl := Option.some.inj (limited.symm.trans isLimited)
          exact few
      · obtain ⟨transcript, isPlain, begins, more⟩ := endless (limit - channel.polls)
        exact Or.inr ⟨_, transcript, Or.inl isPlain, more, begins.onChannel_of_lt limited more⟩

theorem Ends.of_returned {action : Reporting α} {transcript : Transcript}
    {result : Except Fault α} {channel after : Channel} {value : α}
    (ends : Ends action transcript result)
    (returns : onChannel action channel = (.ok value, after)) :
    result = .ok value ∧ after = apply transcript channel := by
  rw [ends] at returns
  cases played : play transcript channel with
  | error cut => rw [played] at returns; cases returns
  | ok last =>
      rw [played] at returns
      cases result with
      | error fault => cases returns
      | ok found =>
          cases returns
          exact ⟨rfl, apply_of_play played⟩

/-- What returns on a channel ends, unless it goes on for ever without being cancelled. -/
theorem Scripted.exists_ends_of_returned {action : Reporting α}
    {post : Transcript → Except Fault α → Prop} {channel after : Channel} {value : α}
    (scripted : Scripted post action) (returns : onChannel action channel = (.ok value, after))
    (finite : channel.cancelAfter = none → ¬Endless action) :
    ∃ transcript, post transcript (.ok value) ∧ Ends action transcript (.ok value) ∧
      after = apply transcript channel := by
  rcases scripted with ⟨transcript, result, holds, ends⟩ | endless
  · obtain ⟨rfl, isLast⟩ := ends.of_returned returns
    exact ⟨transcript, holds, ends, isLast⟩
  · cases limited : channel.cancelAfter with
    | none => exact absurd endless (finite limited)
    | some limit =>
        obtain ⟨_, _, begins, more⟩ := endless (limit - channel.polls)
        rw [begins.onChannel_of_lt limited more] at returns
        cases returns

/-- What passes through finitely many states without being cancelled comes to an end. -/
theorem Approaches.halts {State : Type} {step : State → Reporting (Option State)} {given : Prop}
    {invariant : State → Transcript → Prop} {distance : State → Nat} {state : State}
    {past : Transcript} {channel after : Channel} {states : List State}
    {result : Except Stop State} (approaches : Approaches given invariant distance step)
    (passes : Passes step state channel states result after) (never : channel.cancelAfter = none)
    (holds : invariant state past) : Halts (repeated step state) := by
  have taken {state : State} {past : Transcript} {channel : Channel}
      (holds : invariant state past) (never : channel.cancelAfter = none) :
      ∃ transcript result, Approach given invariant distance past transcript state result ∧
        Ends (step state) transcript result ∧
        onChannel (step state) channel =
          (result.mapError .fault, Transcript.apply transcript channel) := by
    obtain ⟨transcript, result, approach, ends⟩ := approaches state past holds
    exact ⟨transcript, result, approach, ends, ends.onChannel_of_never never⟩
  induction passes generalizing past with
  | @last state channel after isTaken =>
      obtain ⟨transcript, outcome, -, ends, same⟩ := taken holds never
      rw [isTaken] at same
      rw [repeated_eq]
      match outcome with
      | .ok none => exact ⟨transcript, _, ends.bind_last (ends_pure state)⟩
      | .ok (some next) => cases same
      | .error fault => cases same
  | @stopped state channel after stop isTaken =>
      obtain ⟨transcript, outcome, -, ends, same⟩ := taken holds never
      rw [isTaken] at same
      rw [repeated_eq]
      match outcome with
      | .ok next? => cases same
      | .error fault => exact ⟨transcript, _, ends.bind_error _⟩
  | @next state next channel between after states result isTaken _ ih =>
      obtain ⟨transcript, outcome, approach, ends, same⟩ := taken holds never
      rw [isTaken] at same
      rw [repeated_eq]
      match outcome with
      | .ok none => cases same
      | .error fault => cases same
      | .ok (some other) =>
          cases same
          obtain ⟨rest, last, endsNext⟩ :=
            ih ((cancelAfter_apply transcript channel).trans never) (approach.next next rfl)
          exact ⟨transcript ++ rest, last, ends.bind endsNext⟩

/-! ## What only reports -/

theorem reports_pure (value : α) : Reports (pure value) :=
  scripted_pure isPlain_nil

theorem reports_ofExcept (result : Except Fault α) : Reports (ofExcept result) :=
  scripted_ofExcept isPlain_nil

theorem reports_notify (diagnostic : Diagnostic) : Reports (notify diagnostic) :=
  Or.inl ⟨_, _, by simp [IsPlain, Act.IsPlain], ends_notify _⟩

theorem reports_report (severity : Severity) (message : String)
    (systemId location : Option String) : Reports (report severity message systemId location) :=
  reports_notify _

theorem Reports.bind {action : Reporting α} {next : α → Reporting β} (reports : Reports action)
    (reportsNext : ∀ value, Reports (next value)) : Reports (action >>= next) := by
  refine Scripted.bind (reports.mono fun transcript result isPlain => ⟨isPlain, ?_, ?_⟩)
  · intro value _
    exact (reportsNext value).mono fun rest _ isPlainRest =>
      isPlain_append.mpr ⟨isPlain, isPlainRest⟩
  · exact fun _ _ => isPlain

theorem Reports.watching {action : Reporting α} (reports : Reports action) :
    Reports (watching action) :=
  Scripted.watching reports

theorem reports_foldlM {items : List α} {step : β → α → Reporting β}
    (reports : ∀ value item, Reports (step value item)) (initial : β) :
    Reports (items.foldlM step initial) := by
  induction items generalizing initial with
  | nil => exact reports_pure initial
  | cons item rest ih =>
      rw [List.foldlM_cons]
      exact (reports initial item).bind ih

/-- Only messages and reports are made, and there is a value only if none of them is an error. -/
def Vouches (transcript : Transcript) (result : Except Fault (Option α)) : Prop :=
  IsPlain transcript ∧ ∀ value, result = .ok (some value) → errors transcript = 0

/-- What yields a value unless an error is reported vouches for that. -/
theorem Reports.unless {action : Reporting α} (reports : Reports action)
    {next : α × Bool → Reporting (Option β)} (result? : α → Option β)
    (isNext : ∀ value hadError,
      next (value, hadError) = pure (if hadError then none else result? value)) :
    Scripted Vouches (Reporting.watching action >>= next) := by
  refine Scripted.bind (Scripted.watching (reports.mono fun transcript result isPlain =>
    ⟨isPlain, ?value, ?fault⟩))
  case value =>
    rintro ⟨value, hadError⟩ isValue
    rw [isNext]
    refine scripted_pure ?_
    rw [List.append_nil]
    refine ⟨isPlain, fun found isFound => ?_⟩
    cases result with
    | error fault => cases isValue
    | ok original =>
        obtain ⟨rfl, rfl⟩ := Prod.mk.inj (Except.ok.inj isValue)
        split at isFound
        · cases isFound
        · rename_i noError
          simpa using noError
  case fault =>
    exact fun fault _ => ⟨isPlain, fun _ isSome => nomatch isSome⟩

/-- What goes on only with a value that vouches for itself does so too. -/
theorem Scripted.vouches_bind {action : Reporting (Option α)}
    {next : Option α → Reporting (Option β)} (scripted : Scripted Vouches action)
    (ofNone : next none = pure none)
    (ofSome : ∀ value, Scripted Vouches (next (some value))) :
    Scripted Vouches (action >>= next) := by
  refine Scripted.bind (scripted.mono fun transcript result ⟨isPlain, noError⟩ =>
    ⟨isPlain, ?value, ?fault⟩)
  case value =>
    rintro (- | value) isValue
    · rw [ofNone]
      exact scripted_pure ⟨by rwa [List.append_nil], fun _ isSome => nomatch isSome⟩
    · refine (ofSome value).mono fun rest last ⟨isPlainRest, noFurther⟩ =>
        ⟨isPlain_append.mpr ⟨isPlain, isPlainRest⟩, fun found isFound => ?_⟩
      rw [errors_append, noError value isValue, noFurther found isFound]
  case fault =>
    exact fun fault _ => ⟨isPlain, fun _ isSome => nomatch isSome⟩

theorem scripted_vouches_ofExcept {result : Except Fault α} {next : α → Reporting (Option β)}
    (vouches : ∀ value, Scripted Vouches (next value)) :
    Scripted Vouches (ofExcept result >>= next) :=
  Scripted.bind (scripted_ofExcept ⟨isPlain_nil, fun value _ => vouches value,
    fun _ _ => ⟨isPlain_nil, fun _ isSome => nomatch isSome⟩⟩)

/-! ## What is calm -/

theorem scripted_message (text : String) :
    Scripted (fun transcript _ => IsCalm transcript) (tell (.message text)) :=
  Or.inl ⟨_, _, isCalm_message text, ends_tell _⟩

theorem scripted_attune (quiet verbose : Bool) :
    Scripted (fun transcript _ => IsCalm transcript)
      (modify fun channel => { channel with quiet, verbose } : Reporting Unit) :=
  Or.inl ⟨_, _, ⟨by simp [IsPlain, Act.IsPlain], rfl⟩, ends_attune quiet verbose⟩

theorem Scripted.calm_bind {action : Reporting α} {next : α → Reporting β}
    (scripted : Scripted (fun transcript _ => IsCalm transcript) action)
    (ofNext : ∀ value, Scripted (fun transcript _ => IsCalm transcript) (next value)) :
    Scripted (fun transcript _ => IsCalm transcript) (action >>= next) := by
  refine Scripted.bind (scripted.mono fun transcript result isCalm =>
    ⟨isCalm.1, fun value _ => ?_, fun _ _ => isCalm⟩)
  exact (ofNext value).mono fun rest _ isCalmRest => isCalm_append.mpr ⟨isCalm, isCalmRest⟩

theorem scripted_calm_forM {items : List α} {step : α → Reporting PUnit}
    (scripted : ∀ item, Scripted (fun transcript _ => IsCalm transcript) (step item)) :
    Scripted (fun transcript _ => IsCalm transcript) (items.forM step) := by
  induction items with
  | nil => exact scripted_pure isCalm_nil
  | cons item rest ih => exact (scripted item).calm_bind fun _ => ih

/-! ## What yields a value -/

/-- A computation ends and has a plain transcript.  In a given case it yields a value with a
property, so that it meets no fault. -/
def Yields (given : Prop) (post : α → Prop) (action : Reporting α) : Prop :=
  ∃ transcript result, IsPlain transcript ∧ Ends action transcript result ∧
    (given → ∃ value, result = .ok value ∧ post value)

section Yields

variable {given : Prop} {post : α → Prop}

theorem Yields.reports {action : Reporting α} (yields : Yields given post action) :
    Reports action := by
  obtain ⟨transcript, result, isPlain, ends, -⟩ := yields
  exact Or.inl ⟨transcript, result, isPlain, ends⟩

theorem Yields.mono {action : Reporting α} {assumed : Prop} {strong : α → Prop}
    (yields : Yields assumed strong action) (isGiven : given → assumed)
    (implies : given → ∀ value, strong value → post value) : Yields given post action := by
  obtain ⟨transcript, result, isPlain, ends, ofGiven⟩ := yields
  refine ⟨transcript, result, isPlain, ends, fun isCase => ?_⟩
  obtain ⟨value, isValue, holds⟩ := ofGiven (isGiven isCase)
  exact ⟨value, isValue, implies isCase value holds⟩

theorem Yields.within {action : Reporting α} {assumed : Prop} (yields : Yields assumed post action)
    (isGiven : given → assumed) : Yields given post action :=
  yields.mono isGiven fun _ _ => id

theorem Yields.always {action : Reporting α} (yields : Yields True post action) :
    Yields given post action :=
  yields.within fun _ => trivial

theorem yields_pure {value : α} (holds : given → post value) : Yields given post (pure value) :=
  ⟨[], _, isPlain_nil, ends_pure value, fun isGiven => ⟨value, rfl, holds isGiven⟩⟩

theorem yields_ofExcept {result : Except Fault α}
    (holds : given → ∃ value, result = .ok value ∧ post value) :
    Yields given post (ofExcept result) :=
  ⟨[], _, isPlain_nil, ends_ofExcept result, holds⟩

theorem yields_fail {fault : Fault} (never : ¬given) : Yields given post (fail fault) :=
  show Yields given post (ofExcept (.error fault)) from
    yields_ofExcept fun isGiven => absurd isGiven never

theorem yields_bind {action : Reporting α} {next : α → Reporting β} {ends : β → Prop}
    (yields : Yields given post action)
    (yieldsNext : ∀ value, Yields (given ∧ post value) ends (next value)) :
    Yields given ends (action >>= next) := by
  obtain ⟨first, result, isPlain, isFirst, ofGiven⟩ := yields
  cases result with
  | error fault =>
      refine ⟨first, _, isPlain, isFirst.bind_error next, fun isGiven => ?_⟩
      obtain ⟨value, isValue, -⟩ := ofGiven isGiven
      cases isValue
  | ok value =>
      obtain ⟨rest, last, isPlainRest, isRest, ofBoth⟩ := yieldsNext value
      refine ⟨first ++ rest, last, isPlain_append.mpr ⟨isPlain, isPlainRest⟩, isFirst.bind isRest,
        fun isGiven => ofBoth ⟨isGiven, ?_⟩⟩
      obtain ⟨_, isValue, holds⟩ := ofGiven isGiven
      cases isValue
      exact holds

theorem yields_after {action : Reporting α} {next : α → Reporting β} {ends : β → Prop}
    (yields : Yields given (fun _ => True) action)
    (yieldsNext : ∀ value, Yields given ends (next value)) : Yields given ends (action >>= next) :=
  yields_bind yields fun value => (yieldsNext value).within And.left

theorem yields_notify {post : Unit → Prop} (diagnostic : Diagnostic) (holds : given → post ()) :
    Yields given post (notify diagnostic) :=
  ⟨_, _, by simp [IsPlain, Act.IsPlain], ends_notify diagnostic, fun isGiven =>
    ⟨(), rfl, holds isGiven⟩⟩

theorem yields_poll {post : Unit → Prop} (holds : given → post ()) : Yields given post poll :=
  ⟨_, _, by simp [IsPlain, Act.IsPlain], ends_poll, fun isGiven => ⟨(), rfl, holds isGiven⟩⟩

theorem yields_forM {items : List α} {step : α → Reporting PUnit}
    (yields : ∀ item ∈ items, Yields given (fun _ => True) (step item)) :
    Yields given (fun _ => True) (items.forM step) := by
  induction items with
  | nil => exact yields_pure fun _ => trivial
  | cons item rest ih =>
      obtain ⟨ofFirst, ofRest⟩ := List.forall_mem_cons.mp yields
      exact yields_bind ofFirst fun _ => (ih ofRest).within And.left

/-- What holds of every value that is yielded for an item holds of all of them. -/
theorem yields_mapM {items : List α} {step : α → Reporting β} {holds : β → Prop}
    (yields : ∀ item ∈ items, Yields given holds (step item)) :
    Yields given (fun values => ∀ value ∈ values, holds value) (items.mapM step) := by
  induction items with
  | nil => exact yields_pure fun _ => by simp
  | cons item rest ih =>
      obtain ⟨ofFirst, ofRest⟩ := List.forall_mem_cons.mp yields
      rw [List.mapM_cons]
      refine yields_bind ofFirst fun value => ?_
      refine yields_bind ((ih ofRest).within And.left) fun values => ?_
      exact yields_pure fun ⟨⟨_, isFirst⟩, areRest⟩ => List.forall_mem_cons.mpr ⟨isFirst, areRest⟩

theorem Yields.returned {action : Reporting α} (yields : Yields given post action) :
    Yields given (fun value => post value ∧
      ∃ channel after, onChannel action channel = (.ok value, after)) action := by
  obtain ⟨transcript, result, isPlain, ends, ofGiven⟩ := yields
  refine ⟨transcript, result, isPlain, ends, fun isGiven => ?_⟩
  obtain ⟨value, rfl, holds⟩ := ofGiven isGiven
  exact ⟨value, rfl, holds, {}, _, ends.onChannel_of_never rfl⟩

theorem yields_unless {action : Reporting α} {next : α × Bool → Reporting (Option β)}
    {holds : β → Prop} (yields : Yields given post action) (result? : α → Option β)
    (isNext : ∀ value hadError,
      next (value, hadError) = pure (if hadError then none else result? value))
    (ofResult : ∀ value, post value → ∀ result ∈ result? value, holds result) :
    Yields given (fun result? => ∀ result ∈ result?, holds result)
      (watching action >>= next) := by
  obtain ⟨transcript, result, isPlain, ends, ofGiven⟩ := yields
  cases result with
  | error fault =>
      refine ⟨transcript, _, isPlain, ends.watching.bind_error next, fun isGiven => ?_⟩
      obtain ⟨_, isOk, -⟩ := ofGiven isGiven
      cases isOk
  | ok value =>
      have last := isNext value (decide (0 < errors transcript))
      refine ⟨transcript, _, isPlain, ends.watching.bind_last (last ▸ ends_pure _), ?_⟩
      intro isGiven
      obtain ⟨_, ⟨⟩, isValue⟩ := ofGiven isGiven
      refine ⟨_, rfl, ?_⟩
      split
      · exact fun _ isSome => nomatch isSome
      · exact ofResult value isValue

end Yields

end Reporting

end Typeloom
