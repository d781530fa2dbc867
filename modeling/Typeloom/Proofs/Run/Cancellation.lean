import Typeloom.Proofs.Run.Publication
import Typeloom.Proofs.Run.Course

/-!
# Cancellation

A run that the listener cancels is cut where the listener says so.  Up to there it is the same as
without a listener that cancels, and it changes nothing.
-/

namespace Typeloom

open Reporting Transcript

/-- The channel to a listener that answers a number of polls with no, or all of them. -/
def Channel.limited (channel : Channel) (limit : Option Nat) : Channel :=
  { channel with cancelAfter := limit }

def Site.limited (site : Site) (limit : Option Nat) : Site :=
  { site with channel := site.channel.limited limit }

theorem Act.apply_limited (act : Act) (channel : Channel) (limit : Option Nat) :
    act.apply (channel.limited limit) = (act.apply channel).limited limit := by
  cases act with
  | notify diagnostic =>
      have passes : (channel.limited limit).passes diagnostic.severity =
          channel.passes diagnostic.severity := by
        cases diagnostic.severity <;> rfl
      simp only [apply, Channel.notify, passes]
      split <;> rfl
  | _ => rfl

theorem Transcript.apply_limited (transcript : Transcript) (channel : Channel)
    (limit : Option Nat) :
    apply transcript (channel.limited limit) = (apply transcript channel).limited limit := by
  induction transcript generalizing channel with
  | nil => rfl
  | cons act rest ih =>
      rw [apply, List.foldl_cons, ← apply, act.apply_limited, ih]
      rfl

namespace Program

variable {arguments : List String} {remote : Table String (List UInt8)} {site : Site}

/-- The number of polls after which the listener of a run with a limit cancels it. -/
def limitOf (site : Site) (limit : Option Nat) : Option Nat :=
  limit.map (site.channel.polls + ·)

/-- The run with a listener that answers so many polls with no, or all of them. -/
def runWith (limit : Option Nat) (arguments : List String) (remote : Table String (List UInt8))
    (site : Site) : Except Fault Exit × Site :=
  run arguments remote (site.limited (limitOf site limit))

section Cut

variable {transcript : Transcript} {result : Except Fault (Option (Options × Product))}

/-- A run is the same with every listener that does not cancel it at one of its polls. -/
theorem exists_runWith (site : Site)
    (ends : Ends (prepare arguments site.system remote) transcript result) :
    ∃ (exit : Except Fault Exit) (after : Site),
      after.channel.polls = site.channel.polls + polls transcript ∧
      (apply transcript site.channel).events <+: after.channel.events ∧
      ∀ limit, (∀ count, limit = some count → polls transcript ≤ count) →
        runWith limit arguments remote site = (exit, after.limited (limitOf site limit)) := by
  obtain ⟨exit, later, written, further, noPoll, concludes⟩ :=
    exists_conclude (result.mapError .fault) site.system site.output
      (apply transcript site.channel).hadWarning
  let after : Site :=
    { channel := apply (transcript ++ further) site.channel, system := later, output := written }
  refine ⟨exit, after, ?_, ?_, fun limit few => ?_⟩
  · rw [polls_apply, polls_append, noPoll, Nat.add_zero]
  · exact events_prefix_of_isPrefix (List.prefix_append transcript further) site.channel
  · have allows : ∀ count, (site.limited (limitOf site limit)).channel.cancelAfter = some count →
        polls transcript ≤ count - (site.limited (limitOf site limit)).channel.polls := by
      intro count isLimit
      obtain ⟨allowed, isAllowed, rfl⟩ := Option.map_eq_some_iff.mp isLimit
      exact (few allowed isAllowed).trans (Nat.add_sub_cancel_left _ _).ge
    rw [runWith, run_eq]
    change conclude _ (onChannel (prepare arguments site.system remote) _) = _
    have sameChannel : apply transcript (site.limited (limitOf site limit)).channel =
        (apply transcript site.channel).limited (limitOf site limit) :=
      apply_limited transcript site.channel _
    rw [ends.onChannel_of_le allows, sameChannel]
    refine (concludes _ ((apply transcript site.channel).limited (limitOf site limit)) rfl).trans ?_
    rw [apply_limited, ← apply_append]
    rfl

/-- A run with more polls than are answered with no is cut, and leaves everything else as it was. -/
theorem runWith_of_lt (begins : Begins (prepare arguments site.system remote) transcript)
    {count : Nat} (more : count < polls transcript) :
    runWith (some count) arguments remote site = (.ok .failure,
      ({ site with channel := apply (upTo count transcript) site.channel } : Site).limited
        (limitOf site (some count))) := by
  have left : site.channel.polls + count - (site.limited (limitOf site (some count))).channel.polls
      = count := Nat.add_sub_cancel_left _ _
  rw [runWith, run_eq]
  change conclude _ (onChannel (prepare arguments site.system remote) _) = _
  have isLimited : (site.limited (limitOf site (some count))).channel.cancelAfter =
      some (site.channel.polls + count) := rfl
  rw [begins.onChannel_of_lt isLimited (by rwa [left]), left]
  change (_, _) = (_, _)
  congr 2
  exact apply_limited _ site.channel _

end Cut

/-- A run is cut by its listener. -/
structure IsCut (arguments : List String) (remote : Table String (List UInt8)) (site : Site)
    (count : Nat) : Prop where
  fails : (runWith (some count) arguments remote site).1 = .ok .failure
  polls : (runWith (some count) arguments remote site).2.channel.polls =
    site.channel.polls + count + 1
  system : (runWith (some count) arguments remote site).2.system = site.system
  output : (runWith (some count) arguments remote site).2.output = site.output
  /-- The listener is told the beginning of what one that never cancels is told. -/
  events : Halts (prepare arguments site.system remote) →
    (runWith (some count) arguments remote site).2.channel.events <+:
      (runWith none arguments remote site).2.channel.events
  /-- The listener is told the beginning of what one that cancels later is told. -/
  eventsLater : ∀ later, count ≤ later →
    (runWith (some count) arguments remote site).2.channel.events <+:
      (runWith (some later) arguments remote site).2.channel.events

theorem isCut_of_begins {transcript : Transcript} {count : Nat}
    (begins : Begins (prepare arguments site.system remote) transcript)
    (more : count < Transcript.polls transcript)
    (events : Halts (prepare arguments site.system remote) →
      (runWith (some count) arguments remote site).2.channel.events <+:
        (runWith none arguments remote site).2.channel.events)
    (eventsLater : ∀ later, count ≤ later →
      (runWith (some count) arguments remote site).2.channel.events <+:
        (runWith (some later) arguments remote site).2.channel.events) :
    IsCut arguments remote site count where
  fails := by rw [runWith_of_lt begins more]
  polls := by
    rw [runWith_of_lt begins more]
    change (apply (upTo count transcript) site.channel).polls = _
    rw [polls_apply, polls_upTo more, Nat.add_assoc]
  system := by
    rw [runWith_of_lt begins more]
    rfl
  output := by
    rw [runWith_of_lt begins more]
    rfl
  events := events
  eventsLater := eventsLater

/-- What a listener that cancels a run is told is the beginning of what one is told that cancels it
later. -/
theorem events_prefix_of_begins {transcript : Transcript} {count later : Nat}
    (begins : Begins (prepare arguments site.system remote) transcript) (le : count ≤ later)
    (more : later < Transcript.polls transcript) :
    (runWith (some count) arguments remote site).2.channel.events <+:
      (runWith (some later) arguments remote site).2.channel.events := by
  rw [runWith_of_lt begins (Nat.lt_of_le_of_lt le more), runWith_of_lt begins more]
  exact events_prefix_of_isPrefix (upTo_prefix_upTo le transcript) site.channel

/-- With a listener that never cancels, a run ends and makes no more than a number of polls. -/
def EndsWithin (arguments : List String) (remote : Table String (List UInt8)) (site : Site)
    (count : Nat) : Prop :=
  Halts (prepare arguments site.system remote) ∧
    (runWith none arguments remote site).2.channel.polls ≤ site.channel.polls + count

end Program

end Typeloom
