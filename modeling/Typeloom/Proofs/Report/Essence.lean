import Typeloom.Proofs.Report.Scripted

/-!
# What does not depend on how much is told

Messages, announcements, warnings and infos may be withheld from the listener.  What is left of a
channel without them, and what is left of a transcript, is their essence.  Two computations are
alike if they differ in nothing else.
-/

namespace Typeloom

/-- Whether the listener is always told of an event. -/
def Event.isEssential : Event → Bool
  | .diagnosed notice _ => notice.isError
  | .compiled _ _ => true
  | _ => false

/-- A channel without what may be withheld from the listener. -/
def Channel.essence (channel : Channel) : Channel :=
  { channel with
    quiet := false
    verbose := false
    events := channel.events.filter Event.isEssential }

namespace Channel

variable {channel other : Channel}

theorem cancelAfter_eq_of_essence (same : channel.essence = other.essence) :
    channel.cancelAfter = other.cancelAfter := by
  have sameLimit := congrArg Channel.cancelAfter same
  exact sameLimit

theorem polls_eq_of_essence (same : channel.essence = other.essence) :
    channel.polls = other.polls := by
  have samePolls := congrArg Channel.polls same
  exact samePolls

theorem hadWarning_eq_of_essence (same : channel.essence = other.essence) :
    channel.hadWarning = other.hadWarning := by
  have sameWarning := congrArg Channel.hadWarning same
  exact sameWarning

end Channel

namespace Act

/-- Whether an act has an effect on the essence of a channel. -/
def isEssential : Act → Bool
  | .tell event => event.isEssential
  | .attune _ _ => false
  | _ => true

theorem essence_notify (channel : Channel) (notice : Severity) (diagnostic : Diagnostic) :
    (channel.notify notice diagnostic).essence =
      { channel.essence with
        errors := if notice.isError then channel.errors + 1 else channel.errors
        hadWarning := channel.hadWarning || notice = .warning
        events := channel.essence.events ++
          if notice.isError then [.diagnosed notice diagnostic] else [] } := by
  unfold Channel.notify
  cases isError : notice.isError with
  | true =>
      have passes : channel.passes notice = true := by
        cases notice <;> first | rfl | cases isError
      simp [passes, Channel.essence, Channel.tell, Event.isEssential, isError]
  | false =>
      dsimp only
      split <;> simp [Channel.essence, Channel.tell, Event.isEssential, isError]

/-- The essence of a channel after an act depends on its essence before that. -/
theorem essence_apply (act : Act) {channel other : Channel}
    (same : channel.essence = other.essence) :
    (act.apply channel).essence = (act.apply other).essence := by
  have sameEvents := congrArg Channel.events same
  have sameErrors := congrArg Channel.errors same
  have samePolls := congrArg Channel.polls same
  have sameLimit :=
    Channel.cancelAfter_eq_of_essence same
  have sameWarning := congrArg Channel.hadWarning same
  simp only [Channel.essence] at sameEvents sameErrors samePolls sameLimit sameWarning
  cases act with
  | notify diagnostic =>
      simp only [apply, essence_notify, same, sameErrors, sameWarning]
  | _ => simp [apply, Channel.essence, Channel.tell, Channel.poll, *]

theorem essence_apply_of_not_isEssential {act : Act} (silent : act.isEssential = false)
    (channel : Channel) : (act.apply channel).essence = channel.essence := by
  cases act with
  | tell event =>
      have dropped : event.isEssential = false := silent
      simp [apply, Channel.essence, Channel.tell, dropped]
  | attune quiet verbose => rfl
  | notify diagnostic => cases silent
  | poll => cases silent

end Act

namespace Transcript

/-- A transcript without what has no effect on the essence of a channel. -/
def essence (transcript : Transcript) : Transcript :=
  transcript.filter Act.isEssential

theorem essence_append (first rest : Transcript) :
    essence (first ++ rest) = essence first ++ essence rest :=
  List.filter_append first rest

theorem essence_apply_congr (transcript : Transcript) {channel other : Channel}
    (same : channel.essence = other.essence) :
    (apply transcript channel).essence = (apply transcript other).essence := by
  induction transcript generalizing channel other with
  | nil => exact same
  | cons act rest ih => exact ih (act.essence_apply same)

theorem essence_apply_essence (transcript : Transcript) (channel : Channel) :
    (apply (essence transcript) channel).essence = (apply transcript channel).essence := by
  induction transcript generalizing channel with
  | nil => rfl
  | cons act rest ih =>
      cases isEssential : act.isEssential with
      | true =>
          rw [essence, List.filter_cons_of_pos isEssential]
          exact ih (act.apply channel)
      | false =>
          rw [essence, List.filter_cons_of_neg (by simp [isEssential]), ← essence, ih]
          exact essence_apply_congr rest
            (Act.essence_apply_of_not_isEssential isEssential channel).symm

/-- Transcripts with one essence have the same effect on the essence of a channel. -/
theorem essence_apply {transcript other : Transcript} {channel channel' : Channel}
    (same : essence transcript = essence other) (sameChannel : channel.essence = channel'.essence) :
    (apply transcript channel).essence = (apply other channel').essence := by
  rw [← essence_apply_essence, same, essence_apply_essence]
  exact essence_apply_congr other sameChannel

theorem isEssential_of_isPoll {act : Act} (isPoll : act.isPoll = true) :
    act.isEssential = true := by
  cases act <;> first | rfl | cases isPoll

theorem polls_essence (transcript : Transcript) :
    polls (essence transcript) = polls transcript := by
  unfold polls essence
  rw [List.countP_filter]
  refine List.countP_congr fun act _ => ?_
  cases act <;> simp [Act.isPoll, Act.isEssential]

/-- Polls belong to the essence of a transcript. -/
theorem essence_upTo (count : Nat) (transcript : Transcript) :
    essence (upTo count transcript) = upTo count (essence transcript) := by
  induction transcript generalizing count with
  | nil => rfl
  | cons act rest ih =>
      cases isPoll : act.isPoll with
      | false =>
          rw [upTo_of_not_isPoll isPoll]
          cases isEssential : act.isEssential with
          | true =>
              rw [essence, essence, List.filter_cons_of_pos isEssential,
                List.filter_cons_of_pos isEssential, upTo_of_not_isPoll isPoll]
              exact congrArg (act :: ·) (ih count)
          | false =>
              rw [essence, essence, List.filter_cons_of_neg (by simp [isEssential]),
                List.filter_cons_of_neg (by simp [isEssential])]
              exact ih count
      | true =>
          have isEssential := isEssential_of_isPoll isPoll
          cases count with
          | zero =>
              rw [upTo_zero_of_isPoll isPoll, essence, essence,
                List.filter_cons_of_pos isEssential, List.filter_cons_of_pos isEssential,
                upTo_zero_of_isPoll isPoll]
              rfl
          | succ count =>
              rw [upTo_succ_of_isPoll isPoll, essence, essence,
                List.filter_cons_of_pos isEssential, List.filter_cons_of_pos isEssential,
                upTo_succ_of_isPoll isPoll]
              exact congrArg (act :: ·) (ih count)

end Transcript

namespace Reporting

open Transcript

variable {α β : Type}

/-- Two computations have one result and transcripts with one essence, or both go on for ever with
one essence. -/
def Alike (left right : Reporting α) : Prop :=
  (∃ transcript other result, essence transcript = essence other ∧
    Ends left transcript result ∧ Ends right other result) ∨
  ∀ count, ∃ transcript other, essence transcript = essence other ∧
    Begins left transcript ∧ Begins right other ∧ count < polls transcript

theorem Scripted.alike {action : Reporting α} {post : Transcript → Except Fault α → Prop}
    (scripted : Scripted post action) : Alike action action := by
  rcases scripted with ⟨transcript, result, -, ends⟩ | endless
  · exact Or.inl ⟨transcript, transcript, result, rfl, ends, ends⟩
  · refine Or.inr fun count => ?_
    obtain ⟨transcript, -, begins, more⟩ := endless count
    exact ⟨transcript, transcript, rfl, begins, begins, more⟩

theorem Alike.bind {left right : Reporting α} {next next' : α → Reporting β}
    (alike : Alike left right) (alikeNext : ∀ value, Alike (next value) (next' value)) :
    Alike (left >>= next) (right >>= next') := by
  rcases alike with ⟨transcript, other, result, same, ends, ends'⟩ | endless
  · cases result with
    | error fault =>
        exact Or.inl ⟨transcript, other, _, same, ends.bind_error _, ends'.bind_error _⟩
    | ok value =>
        rcases alikeNext value with ⟨rest, rest', result, sameRest, endsRest, endsRest'⟩ | endless
        · refine Or.inl ⟨_, _, result, ?_, ends.bind endsRest, ends'.bind endsRest'⟩
          rw [essence_append, essence_append, same, sameRest]
        · refine Or.inr fun count => ?_
          obtain ⟨rest, rest', sameRest, begins, begins', more⟩ := endless count
          refine ⟨_, _, ?_, ends.begins_bind begins, ends'.begins_bind begins', ?_⟩
          · rw [essence_append, essence_append, same, sameRest]
          · rw [polls_append]
            omega
  · refine Or.inr fun count => ?_
    obtain ⟨transcript, other, same, begins, begins', more⟩ := endless count
    exact ⟨transcript, other, same, begins.bind next, begins'.bind next', more⟩

theorem alike_ofExcept_bind {result : Except Fault α} {next next' : α → Reporting β}
    (alikeNext : ∀ value, result = .ok value → Alike (next value) (next' value)) :
    Alike (ofExcept result >>= next) (ofExcept result >>= next') := by
  cases result with
  | error fault =>
      exact Or.inl ⟨[], [], _, rfl, (ends_ofExcept _).bind_error _, (ends_ofExcept _).bind_error _⟩
  | ok value => exact alikeNext value rfl

/-- Computations that begin with one essence are cut at the same poll. -/
theorem Begins.alike_cut {left right : Reporting α} {transcript other : Transcript} {limit : Nat}
    {channel channel' : Channel} (begins : Begins left transcript) (begins' : Begins right other)
    (same : essence transcript = essence other) (sameChannel : channel.essence = channel'.essence)
    (limited : channel.cancelAfter = some limit)
    (more : limit - channel.polls < polls transcript) :
    (onChannel left channel).1 = (onChannel right channel').1 ∧
      (onChannel left channel).2.essence = (onChannel right channel').2.essence := by
  have limited' : channel'.cancelAfter = some limit :=
    (Channel.cancelAfter_eq_of_essence sameChannel).symm.trans limited
  have samePolls : channel.polls = channel'.polls := Channel.polls_eq_of_essence sameChannel
  have more' : limit - channel'.polls < polls other := by
    rwa [← samePolls, ← polls_essence, ← same, polls_essence]
  rw [begins.onChannel_of_lt limited more, begins'.onChannel_of_lt limited' more', ← samePolls]
  refine ⟨rfl, essence_apply ?_ sameChannel⟩
  rw [essence_upTo, essence_upTo, same]

/-- Computations that are alike have the same result, and leave channels with one essence. -/
theorem Alike.outcome {left right : Reporting α} (alike : Alike left right)
    {channel other : Channel} (same : channel.essence = other.essence)
    (halts : channel.cancelAfter = none → Halts left) :
    (onChannel left channel).1 = (onChannel right other).1 ∧
      (onChannel left channel).2.essence = (onChannel right other).2.essence := by
  have sameLimit : channel.cancelAfter = other.cancelAfter :=
    Channel.cancelAfter_eq_of_essence same
  have samePolls : channel.polls = other.polls := Channel.polls_eq_of_essence same
  rcases alike with ⟨transcript, transcript', result, sameEssence, ends, ends'⟩ | endless
  · have completes (few : ∀ limit, channel.cancelAfter = some limit →
        polls transcript ≤ limit - channel.polls) :
        (onChannel left channel).1 = (onChannel right other).1 ∧
          (onChannel left channel).2.essence = (onChannel right other).2.essence := by
      have few' : ∀ limit, other.cancelAfter = some limit →
          polls transcript' ≤ limit - other.polls := by
        rwa [← sameLimit, ← samePolls, ← polls_essence, ← sameEssence, polls_essence]
      rw [ends.onChannel_of_le few, ends'.onChannel_of_le few']
      exact ⟨rfl, essence_apply sameEssence same⟩
    cases limited : channel.cancelAfter with
    | none => exact completes (by simp [limited])
    | some limit =>
        rcases Nat.lt_or_ge (limit - channel.polls) (polls transcript) with more | few
        · exact ends.begins.alike_cut ends'.begins sameEssence same limited more
        · refine completes fun found isFound => ?_
          obtain rfl := Option.some.inj (limited.symm.trans isFound)
          exact few
  · cases limited : channel.cancelAfter with
    | none =>
        obtain ⟨transcript, result, ends⟩ := halts limited
        obtain ⟨longer, _, _, begins, _, more⟩ := endless (polls transcript)
        exact absurd (ends.polls_le_of_begins begins) (Nat.not_le_of_lt more)
    | some limit =>
        obtain ⟨transcript, transcript', sameEssence, begins, begins', more⟩ :=
          endless (limit - channel.polls)
        exact begins.alike_cut begins' sameEssence same limited more

end Reporting

end Typeloom
