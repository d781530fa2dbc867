import Typeloom.Report.Reporting

/-!
# Transcripts

A transcript lists what is done on a channel.  Played on a channel it leads to another one, unless
the listener cancels the run at one of its polls; then nothing more is done.
-/

namespace Typeloom

/-- Something that a computation does on its channel. -/
inductive Act where
  | tell (event : Event)
  | notify (diagnostic : Diagnostic)
  | poll
  /-- Settle whether warnings are withheld and whether infos are passed on. -/
  | attune (quiet verbose : Bool)

abbrev Transcript := List Act

namespace Act

/-- The channel after an act, unless the listener cancels the run. -/
def apply (channel : Channel) : Act → Channel
  | .tell event => channel.tell event
  | .notify diagnostic => channel.notify diagnostic.severity diagnostic
  | .poll => channel.poll.2
  | .attune quiet verbose => { channel with quiet, verbose }

def isPoll : Act → Bool
  | .poll => true
  | _ => false

/-- Whether an act reports an error. -/
def isError : Act → Bool
  | .notify diagnostic => diagnostic.severity.isError
  | _ => false

/-- Whether an act reports a warning, even if the listener is not told of it. -/
def isWarning : Act → Bool
  | .notify diagnostic => diagnostic.severity = .warning
  | _ => false

/-- Whether an act tells the listener neither of code nor of a file. -/
def IsPlain : Act → Prop
  | .tell (.message _) => True
  | .tell _ => False
  | _ => True

/-- The channel after an act, or the channel on which the listener cancels the run. -/
def play (act : Act) (channel : Channel) : Except Channel Channel :=
  if act.isPoll && channel.poll.1 then .error (act.apply channel) else .ok (act.apply channel)

theorem polls_apply (act : Act) (channel : Channel) :
    (act.apply channel).polls = channel.polls + if act.isPoll then 1 else 0 := by
  cases act <;> simp only [apply, isPoll, Channel.notify, Channel.tell, Channel.poll]
  · simp
  · split <;> simp
  · simp
  · simp

theorem errors_apply (act : Act) (channel : Channel) :
    (act.apply channel).errors = channel.errors + if act.isError then 1 else 0 := by
  cases act with
  | notify diagnostic =>
      rw [apply, Channel.errors_notify, isError]
      split <;> rfl
  | _ => rfl

theorem hadWarning_apply (act : Act) (channel : Channel) :
    (act.apply channel).hadWarning = (channel.hadWarning || act.isWarning) := by
  cases act with
  | notify diagnostic =>
      simp only [apply, Channel.notify, isWarning]
      split <;> rfl
  | _ => exact (Bool.or_false _).symm

theorem cancelAfter_apply (act : Act) (channel : Channel) :
    (act.apply channel).cancelAfter = channel.cancelAfter := by
  cases act <;> simp only [apply, Channel.notify, Channel.tell, Channel.poll]
  split <;> rfl

/-- An act tells the listener of an event, unless that is withheld. -/
def Tells : Act → Event → Prop
  | .tell told, event => event = told
  | .notify diagnostic, event => event = .diagnosed diagnostic.severity diagnostic
  | _, _ => False

theorem exists_events_apply (act : Act) (channel : Channel) :
    ∃ told, (act.apply channel).events = channel.events ++ told ∧
      ∀ event ∈ told, act.Tells event := by
  have nothing : ∃ told, channel.events = channel.events ++ told ∧
      ∀ event ∈ told, act.Tells event := ⟨[], (List.append_nil _).symm, by simp⟩
  cases act with
  | tell event => exact ⟨[event], rfl, by simp [Tells]⟩
  | notify diagnostic =>
      simp only [apply, Channel.notify]
      split
      · exact ⟨[.diagnosed diagnostic.severity diagnostic], rfl, by simp [Tells]⟩
      · exact nothing
  | poll => exact nothing
  | attune quiet verbose => exact nothing

end Act

namespace Transcript

/-- The number of polls. -/
def polls (transcript : Transcript) : Nat :=
  transcript.countP Act.isPoll

/-- The number of errors that are reported. -/
def errors (transcript : Transcript) : Nat :=
  transcript.countP Act.isError

def IsPlain (transcript : Transcript) : Prop :=
  ∀ act ∈ transcript, act.IsPlain

/-- The listener is told of neither code nor a file nor an error. -/
def IsCalm (transcript : Transcript) : Prop :=
  IsPlain transcript ∧ errors transcript = 0

/-- The channel after all acts, if the listener does not cancel the run. -/
def apply (transcript : Transcript) (channel : Channel) : Channel :=
  transcript.foldl Act.apply channel

/-- The channel after all acts, or the channel on which the listener cancels the run. -/
def play (transcript : Transcript) (channel : Channel) : Except Channel Channel :=
  transcript.foldlM (fun channel act => act.play channel) channel

theorem polls_cons (act : Act) (rest : Transcript) :
    polls (act :: rest) = polls rest + if act.isPoll then 1 else 0 :=
  List.countP_cons

theorem polls_append (first rest : Transcript) : polls (first ++ rest) = polls first + polls rest :=
  List.countP_append

theorem errors_append (first rest : Transcript) :
    errors (first ++ rest) = errors first + errors rest :=
  List.countP_append

theorem isPlain_nil : IsPlain [] := by
  simp [IsPlain]

theorem isPlain_append {first rest : Transcript} :
    IsPlain (first ++ rest) ↔ IsPlain first ∧ IsPlain rest :=
  List.forall_mem_append

theorem isCalm_nil : IsCalm [] :=
  ⟨isPlain_nil, rfl⟩

theorem isCalm_append {first rest : Transcript} :
    IsCalm (first ++ rest) ↔ IsCalm first ∧ IsCalm rest := by
  rw [IsCalm, isPlain_append, errors_append, Nat.add_eq_zero_iff]
  exact and_and_and_comm

theorem isCalm_message (text : String) : IsCalm [.tell (.message text)] :=
  ⟨by simp [IsPlain, Act.IsPlain], rfl⟩

theorem apply_append (first rest : Transcript) (channel : Channel) :
    apply (first ++ rest) channel = apply rest (apply first channel) :=
  List.foldl_append

theorem play_cons (act : Act) (rest : Transcript) (channel : Channel) :
    play (act :: rest) channel = act.play channel >>= play rest :=
  List.foldlM_cons

theorem play_singleton (act : Act) (channel : Channel) : play [act] channel = act.play channel := by
  rw [play_cons]
  cases act.play channel <;> rfl

theorem play_append_of_ok {first : Transcript} {channel between : Channel}
    (completes : play first channel = .ok between) (rest : Transcript) :
    play (first ++ rest) channel = play rest between := by
  rw [play, List.foldlM_append, ← play, completes]
  rfl

theorem play_append_of_error {first : Transcript} {channel cut : Channel}
    (isCut : play first channel = .error cut) (rest : Transcript) :
    play (first ++ rest) channel = .error cut := by
  rw [play, List.foldlM_append, ← play, isCut]
  rfl

theorem polls_apply (transcript : Transcript) (channel : Channel) :
    (apply transcript channel).polls = channel.polls + polls transcript := by
  induction transcript generalizing channel with
  | nil => rfl
  | cons act rest ih =>
      rw [apply, List.foldl_cons, ← apply, ih, Act.polls_apply, polls, polls, List.countP_cons]
      omega

theorem errors_apply (transcript : Transcript) (channel : Channel) :
    (apply transcript channel).errors = channel.errors + errors transcript := by
  induction transcript generalizing channel with
  | nil => rfl
  | cons act rest ih =>
      rw [apply, List.foldl_cons, ← apply, ih, Act.errors_apply, errors, errors, List.countP_cons]
      omega

theorem hadWarning_apply (transcript : Transcript) (channel : Channel) :
    (apply transcript channel).hadWarning =
      (channel.hadWarning || transcript.any Act.isWarning) := by
  induction transcript generalizing channel with
  | nil => exact (Bool.or_false _).symm
  | cons act rest ih =>
      rw [apply, List.foldl_cons, ← apply, ih, Act.hadWarning_apply, List.any_cons, Bool.or_assoc]

theorem cancelAfter_apply (transcript : Transcript) (channel : Channel) :
    (apply transcript channel).cancelAfter = channel.cancelAfter := by
  induction transcript generalizing channel with
  | nil => rfl
  | cons act rest ih => exact (ih _).trans (act.cancelAfter_apply channel)

/-- Acts are done as far as the listener does not cancel the run at a poll among them. -/
theorem play_eq (transcript : Transcript) (channel : Channel) :
    play transcript channel = .ok (apply transcript channel) ∨
      ∃ done rest, transcript = done ++ .poll :: rest ∧
        (apply done channel).poll.1 = true ∧
        play transcript channel = .error (apply done channel).poll.2 := by
  induction transcript generalizing channel with
  | nil => exact Or.inl rfl
  | cons act rest ih =>
      rw [play_cons, Act.play]
      split
      · rename_i cancels
        obtain ⟨isPoll, cancels⟩ := Bool.and_eq_true_iff.mp cancels
        cases act <;> cases isPoll
        exact Or.inr ⟨[], rest, rfl, cancels, rfl⟩
      · rcases ih (act.apply channel) with completes | ⟨done, others, rfl, cancels, cut⟩
        · exact Or.inl completes
        · exact Or.inr ⟨act :: done, others, rfl, cancels, cut⟩

theorem apply_of_play {transcript : Transcript} {channel after : Channel}
    (completes : play transcript channel = .ok after) : after = apply transcript channel := by
  rcases play_eq transcript channel with same | ⟨_, _, _, _, cut⟩
  · exact Except.ok.inj (completes.symm.trans same)
  · rw [completes] at cut
    cases cut

/-- The listener is told of nothing that no act tells of. -/
theorem exists_events_apply (transcript : Transcript) (channel : Channel) :
    ∃ told, (apply transcript channel).events = channel.events ++ told ∧
      ∀ event ∈ told, ∃ act ∈ transcript, act.Tells event := by
  induction transcript generalizing channel with
  | nil => exact ⟨[], (List.append_nil _).symm, by simp⟩
  | cons act rest ih =>
      obtain ⟨first, isFirst, ofAct⟩ := act.exists_events_apply channel
      obtain ⟨others, areOthers, ofRest⟩ := ih (act.apply channel)
      refine ⟨first ++ others, ?_, fun event occurs => ?_⟩
      · rw [apply, List.foldl_cons, ← apply, areOthers, isFirst, List.append_assoc]
      · rcases List.mem_append.mp occurs with isTold | isTold
        · exact ⟨act, List.mem_cons_self, ofAct event isTold⟩
        · obtain ⟨other, isOther, tells⟩ := ofRest event isTold
          exact ⟨other, List.mem_cons_of_mem act isOther, tells⟩

theorem events_prefix_apply (transcript : Transcript) (channel : Channel) :
    channel.events <+: (apply transcript channel).events := by
  obtain ⟨told, isTold, -⟩ := exists_events_apply transcript channel
  exact ⟨told, isTold.symm⟩

theorem events_prefix_of_isPrefix {first whole : Transcript} (isPrefix : first <+: whole)
    (channel : Channel) : (apply first channel).events <+: (apply whole channel).events := by
  obtain ⟨rest, rfl⟩ := isPrefix
  rw [apply_append]
  exact events_prefix_apply rest _

/-! ### Acts up to a poll -/

/-- The acts up to the poll behind the given number of polls. -/
def upTo : Nat → Transcript → Transcript
  | _, [] => []
  | count, act :: rest =>
      match act.isPoll, count with
      | false, count => act :: upTo count rest
      | true, 0 => [act]
      | true, count + 1 => act :: upTo count rest

section UpTo

variable {act : Act} {rest : Transcript}

theorem upTo_of_not_isPoll (silent : act.isPoll = false) (count : Nat) :
    upTo count (act :: rest) = act :: upTo count rest := by
  simp [upTo, silent]

theorem upTo_zero_of_isPoll (isPoll : act.isPoll = true) : upTo 0 (act :: rest) = [act] := by
  simp [upTo, isPoll]

theorem upTo_succ_of_isPoll (isPoll : act.isPoll = true) (count : Nat) :
    upTo (count + 1) (act :: rest) = act :: upTo count rest := by
  simp [upTo, isPoll]

end UpTo

theorem upTo_isPrefix (count : Nat) (transcript : Transcript) :
    upTo count transcript <+: transcript := by
  induction transcript generalizing count with
  | nil => exact List.prefix_refl []
  | cons act rest ih =>
      cases isPoll : act.isPoll with
      | false =>
          rw [upTo_of_not_isPoll isPoll]
          exact (List.prefix_cons_inj act).mpr (ih count)
      | true =>
          cases count with
          | zero =>
              rw [upTo_zero_of_isPoll isPoll]
              exact List.prefix_append [act] rest
          | succ count =>
              rw [upTo_succ_of_isPoll isPoll]
              exact (List.prefix_cons_inj act).mpr (ih count)

theorem upTo_prefix_upTo {fewer more : Nat} (le : fewer ≤ more) (transcript : Transcript) :
    upTo fewer transcript <+: upTo more transcript := by
  induction transcript generalizing fewer more with
  | nil => exact List.prefix_refl []
  | cons act rest ih =>
      cases isPoll : act.isPoll with
      | false =>
          rw [upTo_of_not_isPoll isPoll, upTo_of_not_isPoll isPoll]
          exact (List.prefix_cons_inj act).mpr (ih le)
      | true =>
          match fewer, more with
          | 0, 0 => exact List.prefix_refl _
          | 0, more + 1 =>
              rw [upTo_zero_of_isPoll isPoll, upTo_succ_of_isPoll isPoll]
              exact List.prefix_append [act] _
          | fewer + 1, more + 1 =>
              rw [upTo_succ_of_isPoll isPoll, upTo_succ_of_isPoll isPoll]
              exact (List.prefix_cons_inj act).mpr (ih (Nat.le_of_succ_le_succ le))

theorem polls_upTo {count : Nat} {transcript : Transcript} (more : count < polls transcript) :
    polls (upTo count transcript) = count + 1 := by
  induction transcript generalizing count with
  | nil => simp [polls] at more
  | cons act rest ih =>
      rw [polls_cons] at more
      cases isPoll : act.isPoll with
      | false =>
          rw [upTo_of_not_isPoll isPoll, polls_cons, ih (by simpa [isPoll] using more)]
          simp [isPoll]
      | true =>
          cases count with
          | zero => simp [upTo_zero_of_isPoll isPoll, polls, isPoll]
          | succ count =>
              rw [upTo_succ_of_isPoll isPoll, polls_cons, ih (by simpa [isPoll] using more)]
              simp [isPoll]

/-- Polls among the acts that come first are met first. -/
theorem upTo_append_of_lt {count : Nat} {first : Transcript} (more : count < polls first)
    (rest : Transcript) : upTo count (first ++ rest) = upTo count first := by
  induction first generalizing count with
  | nil => simp [polls] at more
  | cons act others ih =>
      rw [polls_cons] at more
      rw [List.cons_append]
      cases isPoll : act.isPoll with
      | false =>
          rw [upTo_of_not_isPoll isPoll, upTo_of_not_isPoll isPoll,
            ih (by simpa [isPoll] using more)]
      | true =>
          cases count with
          | zero => rw [upTo_zero_of_isPoll isPoll, upTo_zero_of_isPoll isPoll]
          | succ count =>
              rw [upTo_succ_of_isPoll isPoll, upTo_succ_of_isPoll isPoll,
                ih (by simpa [isPoll] using more)]

theorem isPlain_upTo {transcript : Transcript} (isPlain : IsPlain transcript) (count : Nat) :
    IsPlain (upTo count transcript) :=
  fun act occurs => isPlain act ((upTo_isPrefix count transcript).subset occurs)

/-- A listener that allows more polls than there are lets all acts be done. -/
theorem play_of_le {transcript : Transcript} {channel : Channel}
    (few : ∀ limit, channel.cancelAfter = some limit →
      polls transcript ≤ limit - channel.polls) :
    play transcript channel = .ok (apply transcript channel) := by
  rcases play_eq transcript channel with completes | ⟨done, rest, rfl, cancels, -⟩
  · exact completes
  · rw [Channel.poll, cancelAfter_apply, polls_apply] at cancels
    cases limited : channel.cancelAfter with
    | none => simp [limited] at cancels
    | some limit =>
        have fits := few limit limited
        rw [polls_append, polls, polls, List.countP_cons_of_pos rfl, ← polls] at fits
        simp [limited] at cancels
        omega

/-- A listener that allows fewer polls than there are cancels the run at the poll behind those that
it allows. -/
theorem play_of_lt {limit : Nat} {transcript : Transcript} {channel : Channel}
    (limited : channel.cancelAfter = some limit)
    (more : limit - channel.polls < polls transcript) :
    play transcript channel =
      .error (apply (upTo (limit - channel.polls) transcript) channel) := by
  generalize left : limit - channel.polls = count at more
  induction transcript generalizing count channel with
  | nil => simp [polls] at more
  | cons act rest ih =>
      rw [polls_cons] at more
      rw [play_cons, Act.play]
      have stillLimited := (act.cancelAfter_apply channel).trans limited
      have further := act.polls_apply channel
      cases isPoll : act.isPoll with
      | false =>
          rw [isPoll] at further more
          rw [upTo_of_not_isPoll isPoll]
          exact ih stillLimited count (by rw [further]; exact left) more
      | true =>
          rw [isPoll, if_pos rfl] at further
          rw [isPoll, if_pos rfl] at more
          cases count with
          | zero =>
              have cancels : channel.poll.1 = true := by
                simp [Channel.poll, limited]
                omega
              rw [upTo_zero_of_isPoll isPoll, cancels]
              rfl
          | succ count =>
              have goesOn : channel.poll.1 = false := by
                simp [Channel.poll, limited]
                omega
              rw [upTo_succ_of_isPoll isPoll, goesOn]
              exact ih stillLimited count (by omega) (Nat.lt_of_succ_lt_succ more)

end Transcript

end Typeloom
