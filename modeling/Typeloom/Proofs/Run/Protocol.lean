import Typeloom.Proofs.Run.Publication
import Typeloom.Proofs.Run.Course
import Typeloom.Report.Console

/-!
# The protocol of a run

A run tells its listener of code at most once, and only if no error was reported before.  Files are
announced and written only after that, so that any other run leaves the file system as it was.
-/

namespace Typeloom

open Reporting Transcript

/-- Whether an event tells of code. -/
def Event.isCompiled : Event → Bool
  | .compiled _ _ => true
  | _ => false

/-- Whether an event tells of a file. -/
def Event.isGenerated : Event → Bool
  | .generated _ _ _ => true
  | _ => false

/-! ## What transcripts tell -/

namespace Transcript

variable {transcript : Transcript} {act : Act} {event : Event}

theorem of_tells_of_isPlain (tells : act.Tells event) (isPlain : act.IsPlain) :
    event.isCompiled = false ∧ event.isGenerated = false ∧ event.isError = act.isError := by
  cases act with
  | tell told =>
      obtain rfl : event = told := tells
      cases event with
      | message text => exact ⟨rfl, rfl, rfl⟩
      | _ => exact isPlain.elim
  | notify diagnostic =>
      obtain rfl : event = .diagnosed diagnostic.severity diagnostic := tells
      exact ⟨rfl, rfl, rfl⟩
  | poll => exact tells.elim
  | attune quiet verbose => exact tells.elim

/-- A plain transcript tells of neither code nor files, and of errors only if it reports some. -/
theorem exists_events_of_isPlain (isPlain : IsPlain transcript) (channel : Channel) :
    ∃ told, (apply transcript channel).events = channel.events ++ told ∧
      (∀ event ∈ told, event.isCompiled = false ∧ event.isGenerated = false) ∧
      (errors transcript = 0 → ∀ event ∈ told, event.isError = false) := by
  obtain ⟨told, isTold, ofAct⟩ := exists_events_apply transcript channel
  refine ⟨told, isTold, fun event occurs => ?_, fun noError event occurs => ?_⟩
  · obtain ⟨act, isAct, tells⟩ := ofAct event occurs
    obtain ⟨noCode, noFile, -⟩ := of_tells_of_isPlain tells (isPlain act isAct)
    exact ⟨noCode, noFile⟩
  · obtain ⟨act, isAct, tells⟩ := ofAct event occurs
    rw [(of_tells_of_isPlain tells (isPlain act isAct)).2.2]
    exact Bool.eq_false_iff.mpr (List.countP_eq_zero.mp noError act isAct)

/-- Announcements tell of files only. -/
theorem exists_events_of_isAnnouncement (isTold : IsAnnouncement transcript) (channel : Channel) :
    ∃ told, (apply transcript channel).events = channel.events ++ told ∧
      ∀ event ∈ told, event.isCompiled = false ∧ event.isError = false := by
  obtain ⟨told, isEvents, ofAct⟩ := exists_events_apply transcript channel
  refine ⟨told, isEvents, fun event occurs => ?_⟩
  obtain ⟨act, isAct, tells⟩ := ofAct event occurs
  obtain ⟨path, index, total, rfl⟩ := isTold act isAct
  obtain rfl : event = .generated path index total := tells
  exact ⟨rfl, rfl⟩

end Transcript

namespace Program

variable {arguments : List String} {remote : Table String (List UInt8)} {site after : Site}
  {exit : Exit}

/-- Everything that a run does before it publishes comes to an end, if only because the listener
cancels the run. -/
def Terminates (arguments : List String) (remote : Table String (List UInt8)) (site : Site) :
    Prop :=
  site.channel.cancelAfter = none → Halts (prepare arguments site.system remote)

/-- What a run tells its listener, and when it changes the file system. -/
structure Protocol (arguments : List String) (remote : Table String (List UInt8))
    (site : Site) (exit : Exit) (after : Site) (told : List Event) : Prop where
  events_eq : after.channel.events = site.channel.events ++ told
  /-- A run succeeds only if no error was reported. -/
  noError : exit = .success → ∀ event ∈ told, event.isError = false
  /-- The listener is told of code at most once. -/
  compiledOnce : told.countP Event.isCompiled ≤ 1
  /-- Code is generated only in the modes for that. -/
  compiledInMode : ∀ event ∈ told, event.isCompiled = true →
    ∃ options, Options.parse .program site.system arguments = .ok (.options options) ∧
      options.mode.GeneratesCode
  /-- There is no code after an error. -/
  noErrorBefore : ∀ before event later, told = before ++ event :: later →
    event.isCompiled = true → ∀ earlier ∈ before, earlier.isError = false
  /-- Files are announced only after the listener was told of code. -/
  generatedAfter : ∀ before event later, told = before ++ event :: later →
    event.isGenerated = true → ∃ earlier ∈ before, earlier.isCompiled = true
  /-- Without code nothing is written. -/
  untouched : (∀ event ∈ told, event.isCompiled = false) → after.system = site.system
  /-- All that is written is written by a publication that begins where the listener has just been
  told of code, with the file system as it was. -/
  untouchedBefore : ∀ before event later, told = before ++ event :: later →
    event.isCompiled = true → ∃ options code channel,
      (prepare arguments site.system remote).onChannel site.channel =
        (.ok (some (options, .code code)), channel) ∧
      channel.events = site.channel.events ++ before ++ [event] ∧
      (Publishing.publish options (.code code)).run { site with channel } = (.ok exit, after)

/-- A run whose transcript is plain keeps the protocol, if it changes no file. -/
theorem protocol_of_isPlain {transcript : Transcript} (isPlain : IsPlain transcript)
    (isChannel : after.channel = apply transcript site.channel)
    (isSystem : after.system = site.system) (succeeds : exit = .success → errors transcript = 0) :
    ∃ told, Protocol arguments remote site exit after told := by
  obtain ⟨told, areTold, noCode, noError⟩ := exists_events_of_isPlain isPlain site.channel
  have notCompiled {event : Event} (occurs : event ∈ told) : ¬event.isCompiled = true := by
    simp [(noCode event occurs).1]
  have isThere {before later : List Event} {event : Event}
      (isSplit : told = before ++ event :: later) : event ∈ told := by simp [isSplit]
  exact ⟨told, {
    events_eq := by rw [isChannel, areTold]
    noError := fun isSuccess => noError (succeeds isSuccess)
    compiledOnce := by
      rw [List.countP_eq_zero.mpr fun event occurs => notCompiled occurs]
      exact Nat.zero_le 1
    compiledInMode := fun event occurs isCode => absurd isCode (notCompiled occurs)
    noErrorBefore := fun before event later isSplit isCode =>
      absurd isCode (notCompiled (isThere isSplit))
    generatedAfter := fun before event later isSplit isFile => by
      simp [(noCode event (isThere isSplit)).2] at isFile
    untouched := fun _ => isSystem
    untouchedBefore := fun before event later isSplit isCode =>
      absurd isCode (notCompiled (isThere isSplit)) }⟩

/-- A place behind a first part that does not hold what is at the place. -/
theorem exists_of_append_eq {α : Type} {first rest before later : List α} {item other : α}
    (same : first ++ item :: rest = before ++ other :: later) (notFirst : other ∉ first) :
    ∃ between, before = first ++ between ∧ item :: rest = between ++ other :: later := by
  rcases List.append_eq_append_iff.mp same with ⟨between, isBefore, isRest⟩ |
    ⟨part, isFirst, isPart⟩
  · exact ⟨between, isBefore, isRest⟩
  · cases part with
    | nil =>
        rw [List.append_nil] at isFirst
        exact ⟨[], by simp [isFirst], isPart.symm⟩
    | cons found others =>
        obtain ⟨rfl, -⟩ := List.cons.inj isPart
        exact absurd (by simp [isFirst]) notFirst

/-- A run that tells of code keeps the protocol. -/
theorem protocol_of_code {options : Options} {code : GeneratedCode} {channel : Channel}
    {before told notices : Transcript} (isCalm : IsCalm before) (isTold : IsAnnouncement told)
    (settles : Publishing.Settles (.ok exit) notices)
    (parses : Options.parse .program site.system arguments = .ok (.options options))
    (generates : options.mode.GeneratesCode)
    (isChannel : channel = apply (before ++ [Compilation.announcement code]) site.channel)
    (prepares : (prepare arguments site.system remote).onChannel site.channel =
      (.ok (some (options, .code code)), channel))
    (publishes : (Publishing.publish options (.code code)).run { site with channel } =
      (.ok exit, after))
    (isAfter : after.channel = apply (told ++ notices) channel) :
    ∃ told, Protocol arguments remote site exit after told := by
  obtain ⟨isPlain, noNotice⟩ := Publishing.plain_of_settles settles
  obtain ⟨first, areFirst, noCode, noError⟩ := exists_events_of_isPlain isCalm.1 site.channel
  obtain ⟨files, areFiles, onlyFiles⟩ := exists_events_of_isAnnouncement isTold channel
  obtain ⟨last, areLast, noCodeLast, noErrorLast⟩ :=
    exists_events_of_isPlain isPlain (apply told channel)
  let event : Event := .compiled code.outline code.files.length
  have isThen : channel.events = site.channel.events ++ first ++ [event] := by
    rw [isChannel, apply_append, ← areFirst]
    rfl
  have notFirst {other : Event} (isCode : other.isCompiled = true) : other ∉ first := by
    intro occurs
    simp [(noCode other occurs).1] at isCode
  have notLater {other : Event} (isCode : other.isCompiled = true) : other ∉ files ++ last := by
    intro occurs
    rcases List.mem_append.mp occurs with isFile | isLast
    · simp [(onlyFiles other isFile).1] at isCode
    · simp [(noCodeLast other isLast).1] at isCode
  -- There is one place only at which the listener is told of code.
  have isPlace {earlier later : List Event} {other : Event}
      (isSplit : first ++ event :: (files ++ last) = earlier ++ other :: later)
      (isCode : other.isCompiled = true) : earlier = first ∧ other = event := by
    obtain ⟨between, isEarlier, isRest⟩ := exists_of_append_eq isSplit (notFirst isCode)
    cases between with
    | nil =>
        obtain ⟨isEvent, -⟩ := List.cons.inj isRest
        exact ⟨by rw [isEarlier, List.append_nil], isEvent.symm⟩
    | cons _ others =>
        obtain ⟨-, isRest⟩ := List.cons.inj isRest
        exact absurd (by simp [isRest]) (notLater isCode)
  refine ⟨first ++ event :: (files ++ last), {
    events_eq := ?events
    noError := ?noError
    compiledOnce := ?compiledOnce
    compiledInMode := fun _ _ _ => ⟨options, parses, generates⟩
    noErrorBefore := ?noErrorBefore
    generatedAfter := ?generatedAfter
    untouched := ?untouched
    untouchedBefore := ?untouchedBefore }⟩
  case events =>
    rw [isAfter, apply_append, areLast, areFiles, isThen]
    simp
  case noError =>
    intro isSuccess other occurs
    rcases List.mem_append.mp occurs with isFirst | isLater
    · exact noError isCalm.2 other isFirst
    · rcases List.mem_cons.mp isLater with rfl | isLater
      · rfl
      · rcases List.mem_append.mp isLater with isFile | isLast
        · exact (onlyFiles other isFile).2
        · exact noErrorLast (noNotice (congrArg _ isSuccess)) other isLast
  case compiledOnce =>
    have noneFirst : first.countP Event.isCompiled = 0 :=
      List.countP_eq_zero.mpr fun other occurs isCode => notFirst isCode occurs
    have noneLater : (files ++ last).countP Event.isCompiled = 0 :=
      List.countP_eq_zero.mpr fun other occurs isCode => notLater isCode occurs
    rw [List.countP_append, List.countP_cons, noneFirst, noneLater]
    split <;> simp
  case noErrorBefore =>
    intro earlier other later isSplit isCode
    rw [(isPlace isSplit isCode).1]
    exact noError isCalm.2
  case generatedAfter =>
    intro earlier other later isSplit isFile
    have notFirst : other ∉ first := by
      intro occurs
      simp [(noCode other occurs).2] at isFile
    obtain ⟨between, isEarlier, isRest⟩ := exists_of_append_eq isSplit notFirst
    cases between with
    | nil =>
        obtain ⟨rfl, -⟩ := List.cons.inj isRest
        cases isFile
    | cons found others =>
        obtain ⟨rfl, -⟩ := List.cons.inj isRest
        exact ⟨event, by simp [isEarlier], rfl⟩
  case untouched =>
    intro noneTold
    exact nomatch noneTold event (by simp)
  case untouchedBefore =>
    intro earlier other later isSplit isCode
    obtain ⟨rfl, rfl⟩ := isPlace isSplit isCode
    exact ⟨options, code, channel, prepares, isThen, publishes⟩

theorem isPlain_of_course {transcript : Transcript} {system : FileSystem}
    {result : Except Fault (Option (Options × Product))} {count : Nat}
    (course : Course arguments system transcript result) (more : count < polls transcript) :
    IsPlain (upTo count transcript) := by
  match result, course with
  | .error fault, isPlain => exact isPlain_upTo isPlain count
  | .ok none, isPlain => exact isPlain_upTo isPlain count
  | .ok (some (options, .nothing)), ⟨_, isPlain⟩ => exact isPlain_upTo isPlain count
  | .ok (some (options, .text pieces)), ⟨_, isCalm⟩ => exact isPlain_upTo isCalm.1 count
  | .ok (some (options, .code code)), ⟨_, _, before, isLast, isCalm⟩ =>
      rw [isLast, polls_append] at more
      rw [isLast, upTo_append_of_lt more]
      exact isPlain_upTo isCalm.1 count

end Program

end Typeloom
