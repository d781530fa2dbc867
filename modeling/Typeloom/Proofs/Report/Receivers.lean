import Typeloom.Proofs.Report.Transcript
import Typeloom.Report.Chain
import Typeloom.Report.Console

/-!
# Errors on their way to the listener

What is done on a channel may be done at any receiver of a chain that leads to it.  The listener is
told of each error, once and in the order in which the errors are reported, and the receivers on
the way remember that there was one.  A chain stands for receivers that are wrapped around each
other, each of which only knows the one inside it.
-/

namespace Typeloom

/-- What the listener is told of an error that is reported. -/
def Act.error? : Act → Option Event
  | .notify diagnostic =>
      if diagnostic.severity.isError then some (.diagnosed diagnostic.severity diagnostic) else none
  | _ => none

namespace Transcript

/-- What the listener is told of the errors that are reported, in their order. -/
def errorEvents (transcript : Transcript) : List Event :=
  transcript.filterMap Act.error?

theorem length_errorEvents (transcript : Transcript) :
    transcript.errorEvents.length = errors transcript := by
  rw [errorEvents, List.length_filterMap_eq_countP, errors]
  refine List.countP_congr fun act _ => ?_
  cases act with
  | notify diagnostic => simp [Act.error?, Act.isError]
  | _ => simp [Act.error?, Act.isError]

theorem exists_told_of_act {act : Act} (isPlain : act.IsPlain) (channel : Channel) :
    ∃ told, (act.apply channel).events = channel.events ++ told ∧
      told.filter Event.isError = act.error?.toList := by
  cases act with
  | tell event =>
      refine ⟨[event], rfl, ?_⟩
      cases event with
      | message text => rfl
      | _ => cases isPlain
  | notify diagnostic =>
      cases isError : diagnostic.severity.isError with
      | true =>
          refine ⟨[.diagnosed diagnostic.severity diagnostic], ?_, ?_⟩
          · rw [Act.apply, Channel.notify_of_isError isError]
          · simp [Event.isError, Act.error?, isError]
      | false =>
          simp only [Act.apply, Channel.notify, Act.error?, isError]
          split
          · exact ⟨[.diagnosed diagnostic.severity diagnostic], rfl,
              by simp [Event.isError, isError]⟩
          · exact ⟨[], (List.append_nil _).symm, rfl⟩
  | poll => exact ⟨[], (List.append_nil _).symm, rfl⟩
  | attune quiet verbose => exact ⟨[], (List.append_nil _).symm, rfl⟩

/-- The listener is told of each error that is reported, once and in their order. -/
theorem exists_told_of_isPlain {transcript : Transcript} (isPlain : IsPlain transcript)
    (channel : Channel) :
    ∃ told, (apply transcript channel).events = channel.events ++ told ∧
      told.filter Event.isError = transcript.errorEvents := by
  induction transcript generalizing channel with
  | nil => exact ⟨[], (List.append_nil _).symm, rfl⟩
  | cons act rest ih =>
      obtain ⟨ofAct, ofRest⟩ := List.forall_mem_cons.mp isPlain
      obtain ⟨first, isFirst, firstErrors⟩ := exists_told_of_act ofAct channel
      obtain ⟨others, areOthers, otherErrors⟩ := ih ofRest (act.apply channel)
      refine ⟨first ++ others, ?_, ?_⟩
      · rw [apply, List.foldl_cons, ← apply, areOthers, isFirst, List.append_assoc]
      · rw [List.filter_append, firstErrors, otherErrors, errorEvents, errorEvents,
          List.filterMap_cons]
        cases act.error? <;> rfl

end Transcript

namespace ReceiverChain

open Transcript

/-- A chain after an act at the receiver of the given number. -/
def hear (index : Nat) (chain : ReceiverChain) : Act → ReceiverChain
  | .notify diagnostic => chain.report index diagnostic
  | act => { chain with channel := chain.channel.map fun channel => act.apply channel }

/-- A chain after all acts at the receiver of the given number. -/
def hearAll (chain : ReceiverChain) (index : Nat) (transcript : Transcript) : ReceiverChain :=
  transcript.foldl (hear index) chain

theorem latchUpTo_latchUpTo (index : Nat) (latches : List Bool) :
    latchUpTo index (latchUpTo index latches) = latchUpTo index latches := by
  induction latches generalizing index with
  | nil => cases index <;> rfl
  | cons latch rest ih =>
      cases index with
      | zero => rfl
      | succ index => exact congrArg (true :: ·) (ih index)

theorem hear_eq (chain : ReceiverChain) (index : Nat) (act : Act) :
    chain.hear index act =
      { channel := chain.channel.map fun channel => act.apply channel
        latches := if act.isError then latchUpTo index chain.latches else chain.latches } := by
  cases act <;> rfl

/-- What is done at a receiver is done on the channel, and an error sets the latches of the
receivers on its way. -/
theorem hearAll_eq (chain : ReceiverChain) (index : Nat) (transcript : Transcript) :
    chain.hearAll index transcript =
      { channel := chain.channel.map (apply transcript)
        latches := if 0 < errors transcript then latchUpTo index chain.latches
          else chain.latches } := by
  induction transcript generalizing chain with
  | nil =>
      have same : apply [] = id := rfl
      simp [hearAll, errors, same]
  | cons act rest ih =>
      have counts : errors (act :: rest) = errors rest + if act.isError then 1 else 0 :=
        List.countP_cons
      have channels : (chain.channel.map fun channel => act.apply channel).map (apply rest) =
          chain.channel.map (apply (act :: rest)) := by
        cases chain.channel <;> rfl
      rw [hearAll, List.foldl_cons, ← hearAll, ih, hear_eq, counts, channels]
      cases act.isError with
      | false => simp
      | true => simp [latchUpTo_latchUpTo]

end ReceiverChain

/-! ## Receivers that wrap each other -/

/-- The receiver right in front of a listener. -/
structure Gate where
  quiet : Bool
  verbose : Bool
  hadError : Bool := false
  hadWarning : Bool := false

/-- A receiver, and all between it and the listener. -/
inductive Receiver where
  | gate (gate : Gate)
  /-- A receiver that wraps another one, and whether it has seen an error. -/
  | relay (core : Receiver) (hadError : Bool)

namespace Receiver

/-- What a listener goes through. -/
inductive Call where
  | diagnosed (notice : Severity) (diagnostic : Diagnostic)
  /-- It is asked whether the run is to be cancelled. -/
  | asked

/-- What a listener says when it is asked, after all that it went through before. -/
abbrev Listener := List Call → Bool

/-- What is done at a receiver. -/
inductive Step where
  /-- The receiver is given a diagnostic as what the notice says. -/
  | send (notice : Severity) (diagnostic : Diagnostic)
  | report (severity : Severity) (message : String) (systemId location : Option String)
  | poll

/-- A receiver that was given a diagnostic as what the notice says, and what the listener goes
through. -/
def send (notice : Severity) (diagnostic : Diagnostic) : Receiver → Receiver × List Call
  | gate front =>
      match notice with
      | .info => (gate front, if front.verbose then [.diagnosed notice diagnostic] else [])
      | .warning =>
          (gate { front with hadWarning := true },
            if front.quiet then [] else [.diagnosed notice diagnostic])
      | .error | .fatal => (gate { front with hadError := true }, [.diagnosed notice diagnostic])
  | relay core hadError =>
      let (core, calls) := core.send notice diagnostic
      (relay core (if notice.isError then true else hadError), calls)

/-- What the listener goes through when a receiver polls, and whether the run is cancelled. -/
def poll (answer : Bool) : Receiver → List Call × Bool
  | gate _ => ([.asked], answer)
  | relay core _ => core.poll answer

/-- A receiver after a step at it, what the listener goes through, and whether the run is
cancelled.  The answer is what the listener says if it is asked. -/
def take (answer : Bool) (receiver : Receiver) : Step → Receiver × List Call × Bool
  | .send notice diagnostic =>
      let (receiver, calls) := receiver.send notice diagnostic
      (receiver, calls, false)
  | .report severity message systemId location =>
      let (receiver, calls) := receiver.send severity { severity, message, systemId, location }
      (receiver, calls, false)
  | .poll => (receiver, receiver.poll answer)

/-- The number of receivers that a receiver is wrapped around. -/
def depth : Receiver → Nat
  | gate _ => 0
  | relay core _ => core.depth + 1

/-- A receiver after a step at the one of the given number, which is part of it.  The receivers are
numbered from the one in front of the listener on, and a number that none of them has stands for
the last one. -/
def takeAt (index : Nat) (answer : Bool) (step : Step) : Receiver → Receiver × List Call × Bool
  | gate front => take answer (gate front) step
  | relay core hadError =>
      if core.depth < index then take answer (relay core hadError) step
      else
        let (core, outcome) := core.takeAt index answer step
        (relay core hadError, outcome)

/-- The receiver in front of the listener. -/
def front : Receiver → Gate
  | gate front => front
  | relay core _ => core.front

/-- For every receiver, from the one in front of the listener on, whether it has seen an error. -/
def hadErrors : Receiver → List Bool
  | gate front => [front.hadError]
  | relay core hadError => core.hadErrors ++ [hadError]

/-- Receivers that have seen nothing, as many as given around the one in front of the listener. -/
def wrap (quiet verbose : Bool) : Nat → Receiver
  | 0 => gate { quiet, verbose }
  | relays + 1 => relay (wrap quiet verbose relays) false

theorem front_wrap (quiet verbose : Bool) (relays : Nat) :
    (wrap quiet verbose relays).front = { quiet, verbose } := by
  induction relays with
  | zero => rfl
  | succ relays ih => exact ih

theorem hadErrors_wrap (quiet verbose : Bool) (relays : Nat) :
    (wrap quiet verbose relays).hadErrors = List.replicate (relays + 1) false := by
  induction relays with
  | zero => rfl
  | succ relays ih => rw [wrap, hadErrors, ih, ← List.replicate_succ']

/-! ### What a step does -/

/-- Whether the listener is told of diagnostics that are given to a receiver as a notice says: of
all errors, of warnings unless it is quiet, and of infos if it is verbose. -/
def isTold (quiet verbose : Bool) : Severity → Bool
  | .info => verbose
  | .warning => !quiet
  | .error | .fatal => true

namespace Step

/-- The diagnostic that is given to a receiver, and as what. -/
def sent? : Step → Option (Severity × Diagnostic)
  | send notice diagnostic => some (notice, diagnostic)
  | report severity message systemId location =>
      some (severity, { severity, message, systemId, location })
  | poll => none

def isError (step : Step) : Bool :=
  step.sent?.any fun (notice, _) => notice.isError

def isWarning (step : Step) : Bool :=
  step.sent?.any fun (notice, _) => notice = .warning

def isPoll (step : Step) : Bool :=
  step.sent?.isNone

/-- What the listener goes through because of a step, wherever it is made. -/
def call? (quiet verbose : Bool) (step : Step) : Option Call :=
  match step.sent? with
  | some (notice, diagnostic) =>
      if isTold quiet verbose notice then some (.diagnosed notice diagnostic) else none
  | none => some .asked

end Step

/-- A step at the receiver of a number: an error is seen by the receivers up to that number, and
everything else does not depend on the number. -/
structure Takes (index : Nat) (answer : Bool) (step : Step) (receiver : Receiver)
    (outcome : Receiver × List Call × Bool) : Prop where
  hadErrors : outcome.1.hadErrors =
    if step.isError then ReceiverChain.latchUpTo index receiver.hadErrors else receiver.hadErrors
  quiet : outcome.1.front.quiet = receiver.front.quiet
  verbose : outcome.1.front.verbose = receiver.front.verbose
  hadWarning : outcome.1.front.hadWarning = (receiver.front.hadWarning || step.isWarning)
  calls : outcome.2.1 = (step.call? receiver.front.quiet receiver.front.verbose).toList
  cancels : outcome.2.2 = (step.isPoll && answer)

theorem length_hadErrors (receiver : Receiver) :
    receiver.hadErrors.length = receiver.depth + 1 := by
  induction receiver with
  | gate front => rfl
  | relay core hadError ih => simp [hadErrors, depth, ih]

theorem poll_eq (answer : Bool) (receiver : Receiver) :
    receiver.poll answer = ([.asked], answer) := by
  induction receiver with
  | gate front => rfl
  | relay core hadError ih => exact ih

theorem hadErrors_send (notice : Severity) (diagnostic : Diagnostic) (receiver : Receiver) :
    (receiver.send notice diagnostic).1.hadErrors =
      if notice.isError then receiver.hadErrors.map (fun _ => true) else receiver.hadErrors := by
  induction receiver with
  | gate front => cases notice <;> rfl
  | relay core hadError ih =>
      cases isError : notice.isError <;> simp [send, hadErrors, ih, isError]

theorem front_send (notice : Severity) (diagnostic : Diagnostic) (receiver : Receiver) :
    (receiver.send notice diagnostic).1.front.quiet = receiver.front.quiet ∧
      (receiver.send notice diagnostic).1.front.verbose = receiver.front.verbose ∧
      (receiver.send notice diagnostic).1.front.hadWarning =
        (receiver.front.hadWarning || decide (notice = .warning)) := by
  induction receiver with
  | gate front => cases notice <;> simp [send, Receiver.front]
  | relay core hadError ih => exact ih

theorem calls_send (notice : Severity) (diagnostic : Diagnostic) (receiver : Receiver) :
    (receiver.send notice diagnostic).2 =
      if isTold receiver.front.quiet receiver.front.verbose notice then
        [.diagnosed notice diagnostic] else [] := by
  induction receiver with
  | gate front =>
      obtain ⟨quiet, verbose, hadError, hadWarning⟩ := front
      cases notice <;> cases quiet <;> cases verbose <;> rfl
  | relay core hadError ih => exact ih

end Receiver

namespace ReceiverChain

theorem latchUpTo_eq_mapIdx (index : Nat) (latches : List Bool) :
    latchUpTo index latches = latches.mapIdx fun place latch => latch || place ≤ index := by
  induction latches generalizing index with
  | nil => cases index <;> rfl
  | cons latch rest ih =>
      cases index with
      | zero =>
          have same : rest.mapIdx (fun _ latch => latch) = rest :=
            List.ext_getElem (by simp) (by simp)
          simp [latchUpTo, List.mapIdx_cons, same]
      | succ index => simp [latchUpTo, List.mapIdx_cons, ih]

/-- The last receiver has all others in front of it. -/
theorem latchUpTo_of_length_le {index : Nat} {latches : List Bool}
    (isLast : latches.length ≤ index + 1) :
    latchUpTo index latches = latches.map fun _ => true := by
  rw [latchUpTo_eq_mapIdx]
  refine List.ext_getElem (by simp) fun place isPlace _ => ?_
  simp only [List.length_mapIdx] at isPlace
  have inFront : place ≤ index := by omega
  simp [inFront]

theorem latchUpTo_append {index : Nat} {latches : List Bool} (within : index < latches.length)
    (rest : List Bool) : latchUpTo index (latches ++ rest) = latchUpTo index latches ++ rest := by
  rw [latchUpTo_eq_mapIdx, latchUpTo_eq_mapIdx, List.mapIdx_append]
  congr 1
  refine List.ext_getElem (by simp) fun place _ _ => ?_
  have behind : ¬place + latches.length ≤ index := by omega
  simp [behind]

end ReceiverChain

namespace Receiver

theorem takes_take {index : Nat} {receiver : Receiver} (isLast : receiver.depth ≤ index)
    (answer : Bool) (step : Step) :
    Takes index answer step receiver (receiver.take answer step) := by
  have latched : ReceiverChain.latchUpTo index receiver.hadErrors =
      receiver.hadErrors.map fun _ => true :=
    ReceiverChain.latchUpTo_of_length_le (by rw [length_hadErrors]; omega)
  have given (notice : Severity) (diagnostic : Diagnostic) :
      Takes index answer (.send notice diagnostic) receiver
        ((receiver.send notice diagnostic).1, (receiver.send notice diagnostic).2, false) := by
    obtain ⟨quiet, verbose, hadWarning⟩ := front_send notice diagnostic receiver
    have hadErrors := hadErrors_send notice diagnostic receiver
    have calls := calls_send notice diagnostic receiver
    exact {
      hadErrors := by rw [hadErrors, latched]; rfl
      quiet
      verbose
      hadWarning
      calls := by
        rw [calls]
        simp only [Step.call?, Step.sent?]
        split <;> rfl
      cancels := rfl }
  cases step with
  | send notice diagnostic => exact given notice diagnostic
  | report severity message systemId location =>
      obtain ⟨hadErrors, quiet, verbose, hadWarning, calls, cancels⟩ :=
        given severity { severity, message, systemId, location }
      exact ⟨hadErrors, quiet, verbose, hadWarning, calls, cancels⟩
  | poll =>
      have polled := poll_eq answer receiver
      constructor <;>
        simp [take, polled, Step.isError, Step.isWarning, Step.isPoll, Step.call?, Step.sent?]

theorem takes_takeAt (index : Nat) (answer : Bool) (step : Step) (receiver : Receiver) :
    Takes index answer step receiver (receiver.takeAt index answer step) := by
  induction receiver with
  | gate front => exact takes_take (Nat.zero_le index) answer step
  | relay core hadError ih =>
      by_cases isLast : core.depth < index
      · rw [takeAt, if_pos isLast]
        exact takes_take isLast answer step
      · rw [takeAt, if_neg isLast]
        obtain ⟨hadErrors, quiet, verbose, hadWarning, calls, cancels⟩ := ih
        refine ⟨?_, quiet, verbose, hadWarning, calls, cancels⟩
        have within : index < core.hadErrors.length := by rw [length_hadErrors]; omega
        simp only [Receiver.hadErrors, hadErrors, ReceiverChain.latchUpTo_append within]
        split <;> rfl

/-! ### What steps at any receivers do -/

/-- A chain of receivers in front of a listener, after some steps. -/
structure Session where
  receiver : Receiver
  /-- What the listener went through. -/
  calls : List Call := []
  /-- For each step, whether the run was cancelled in it. -/
  cancels : List Bool := []

namespace Session

/-- A step at the receiver of the given number. -/
def next (listener : Listener) (session : Session) (step : Nat × Step) : Session :=
  let (receiver, calls, cancels) :=
    session.receiver.takeAt step.1 (listener session.calls) step.2
  { receiver
    calls := session.calls ++ calls
    cancels := session.cancels ++ [cancels] }

def run (listener : Listener) (session : Session) (steps : List (Nat × Step)) : Session :=
  steps.foldl (next listener) session

/-- Receivers that have seen nothing, as many as given around the one in front of a listener. -/
def start (quiet verbose : Bool) (relays : Nat) : Session :=
  { receiver := wrap quiet verbose relays }

/-- What the listener goes through because of steps. -/
def callsOf (quiet verbose : Bool) (steps : List (Nat × Step)) : List Call :=
  steps.filterMap fun step => step.2.call? quiet verbose

/-- What steps do: an error is seen by all receivers in front of it, and everything else does not
depend on where the steps are made. -/
structure Takes (listener : Listener) (session : Session) (steps : List (Nat × Step))
    (after : Session) : Prop where
  quiet : after.receiver.front.quiet = session.receiver.front.quiet
  verbose : after.receiver.front.verbose = session.receiver.front.verbose
  hadErrors : after.receiver.hadErrors = session.receiver.hadErrors.mapIdx fun place latch =>
    latch || steps.any fun step => place ≤ step.1 && step.2.isError
  hadWarning : after.receiver.front.hadWarning =
    (session.receiver.front.hadWarning || steps.any fun step => step.2.isWarning)
  calls : after.calls = session.calls ++
    callsOf session.receiver.front.quiet session.receiver.front.verbose steps
  cancels : after.cancels = session.cancels ++ steps.mapIdx fun place step =>
    step.2.isPoll && listener (session.calls ++
      callsOf session.receiver.front.quiet session.receiver.front.verbose (steps.take place))

theorem callsOf_nil (quiet verbose : Bool) : callsOf quiet verbose [] = [] :=
  rfl

theorem callsOf_cons (quiet verbose : Bool) (step : Nat × Step) (steps : List (Nat × Step)) :
    callsOf quiet verbose (step :: steps) =
      (step.2.call? quiet verbose).toList ++ callsOf quiet verbose steps := by
  rw [callsOf, List.filterMap_cons]
  cases step.2.call? quiet verbose <;> rfl

theorem takes_run (listener : Listener) (session : Session) (steps : List (Nat × Step)) :
    Takes listener session steps (session.run listener steps) := by
  induction steps generalizing session with
  | nil =>
      have same : session.receiver.hadErrors.mapIdx (fun _ latch => latch) =
          session.receiver.hadErrors :=
        List.ext_getElem (by simp) (by simp)
      constructor <;> simp [run, callsOf, same]
  | cons step steps ih =>
      have first := takes_takeAt step.1 (listener session.calls) step.2 session.receiver
      have quietNext : (session.next listener step).receiver.front.quiet = _ := first.quiet
      have verboseNext : (session.next listener step).receiver.front.verbose = _ := first.verbose
      have callsNext : (session.next listener step).calls = session.calls ++ _ :=
        congrArg (session.calls ++ ·) first.calls
      have rest := ih (session.next listener step)
      constructor
      case quiet => exact rest.quiet.trans quietNext
      case verbose => exact rest.verbose.trans verboseNext
      case hadErrors =>
        refine rest.hadErrors.trans ?_
        have latched : (session.next listener step).receiver.hadErrors = _ := first.hadErrors
        rw [latched]
        cases isError : step.2.isError with
        | false => simp [isError]
        | true =>
            rw [if_pos rfl, ReceiverChain.latchUpTo_eq_mapIdx, List.mapIdx_mapIdx]
            simp [isError, Function.comp_def, Bool.or_assoc]
      case hadWarning =>
        refine rest.hadWarning.trans ?_
        have warned : (session.next listener step).receiver.front.hadWarning = _ := first.hadWarning
        rw [warned, List.any_cons, Bool.or_assoc]
      case calls =>
        refine rest.calls.trans ?_
        rw [quietNext, verboseNext, callsNext, callsOf_cons, List.append_assoc]
      case cancels =>
        refine rest.cancels.trans ?_
        have cancelled : (session.next listener step).cancels = session.cancels ++ [_] :=
          congrArg (session.cancels ++ [·]) first.cancels
        rw [quietNext, verboseNext, callsNext, cancelled]
        simp [List.mapIdx_cons, callsOf_cons, callsOf_nil]

end Session

end Receiver

/-! ### Receivers as a chain -/

namespace Receiver

namespace Call

def isAsked : Call → Bool
  | asked => true
  | diagnosed _ _ => false

def event? : Call → Option Event
  | asked => none
  | diagnosed notice diagnostic => some (.diagnosed notice diagnostic)

end Call

/-- The listener that says that the run is to be cancelled once it has been asked so often. -/
def cancelling (cancelAfter : Option Nat) : Listener := fun calls =>
  match cancelAfter with
  | some limit => limit ≤ calls.countP Call.isAsked
  | none => false

/-- Receivers and what their listener went through as a chain of receivers. -/
def Session.chain (cancelAfter : Option Nat) (session : Session) : ReceiverChain :=
  { channel := some {
      quiet := session.receiver.front.quiet
      verbose := session.receiver.front.verbose
      cancelAfter
      polls := session.calls.countP Call.isAsked
      events := session.calls.filterMap Call.event?
      errors := (session.calls.filterMap Call.event?).countP Event.isError
      hadWarning := session.receiver.front.hadWarning }
    latches := session.receiver.hadErrors }

end Receiver

namespace ReceiverChain

open Receiver (Step Session cancelling)

/-- A chain after a step at the receiver of the given number, and whether the run is cancelled. -/
def takeAt (chain : ReceiverChain) (index : Nat) : Step → Bool × ReceiverChain
  | .send notice diagnostic => (false, chain.send index notice diagnostic)
  | .report severity message systemId location =>
      (false, chain.report index { severity, message, systemId, location })
  | .poll => chain.poll

/-- A chain after steps at the receivers of the given numbers, and for each step whether the run is
cancelled. -/
def takeAll (chain : ReceiverChain) (cancels : List Bool) (steps : List (Nat × Step)) :
    List Bool × ReceiverChain :=
  steps.foldl (fun (cancels, chain) (index, step) =>
    let (cancel, chain) := chain.takeAt index step
    (cancels ++ [cancel], chain)) (cancels, chain)

theorem takeAt_eq (chain : ReceiverChain) (index : Nat) (step : Step) :
    chain.takeAt index step =
      match step.sent? with
      | some (notice, diagnostic) => (false, chain.send index notice diagnostic)
      | none => chain.poll := by
  cases step <;> rfl

theorem notify_eq (notice : Severity) (diagnostic : Diagnostic) (channel : Channel) :
    channel.notify notice diagnostic =
      { channel with
        events := channel.events ++
          if Receiver.isTold channel.quiet channel.verbose notice then
            [.diagnosed notice diagnostic] else []
        errors := channel.errors + if notice.isError then 1 else 0
        hadWarning := channel.hadWarning || notice = .warning } := by
  obtain ⟨quiet, verbose⟩ := channel
  cases notice <;> cases quiet <;> cases verbose <;>
    simp [Channel.notify, Channel.passes, Channel.tell, Receiver.isTold, Severity.isError]

/-- A step at the receivers is one of the chain. -/
theorem takeAt_chain (cancelAfter : Option Nat) (session : Session) (index : Nat) (step : Step) :
    (session.chain cancelAfter).takeAt index step =
      ((step.isPoll && cancelling cancelAfter session.calls),
        (session.next (cancelling cancelAfter) (index, step)).chain cancelAfter) := by
  have taken := Receiver.takes_takeAt index (cancelling cancelAfter session.calls) step
    session.receiver
  rw [takeAt_eq]
  cases sent : step.sent? <;>
    simp only [Session.next, Session.chain, taken.hadErrors, taken.quiet, taken.verbose,
      taken.hadWarning, taken.calls, Step.isError, Step.isWarning, Step.isPoll, Step.call?, sent]
  case none =>
    cases cancelAfter <;>
      simp [poll, Channel.poll, cancelling, Receiver.Call.isAsked, Receiver.Call.event?]
  case some given =>
    obtain ⟨notice, diagnostic⟩ := given
    cases told :
      Receiver.isTold session.receiver.front.quiet session.receiver.front.verbose notice with
    | true =>
        have counted : (Event.diagnosed notice diagnostic).isError = notice.isError := rfl
        simp [send, notify_eq, told, Receiver.Call.isAsked, Receiver.Call.event?, counted,
          List.countP_cons]
    | false =>
        have noError : notice.isError = false := by
          cases notice <;> first | rfl | cases told
        simp [send, notify_eq, told, noError]

/-- The chain does what the receivers do. -/
theorem takeAll_chain (cancelAfter : Option Nat) (session : Session) (steps : List (Nat × Step)) :
    ((session.chain cancelAfter).takeAll session.cancels steps) =
      ((session.run (cancelling cancelAfter) steps).cancels,
        (session.run (cancelling cancelAfter) steps).chain cancelAfter) := by
  induction steps generalizing session with
  | nil => rfl
  | cons step steps ih =>
      have taken := Receiver.takes_takeAt step.1 (cancelling cancelAfter session.calls) step.2
        session.receiver
      have cancels : (session.next (cancelling cancelAfter) step).cancels =
          session.cancels ++ [((session.chain cancelAfter).takeAt step.1 step.2).1] := by
        rw [takeAt_chain]
        exact congrArg (session.cancels ++ [·]) taken.cancels
      rw [Session.run, List.foldl_cons, ← Session.run, ← ih, cancels, takeAt_chain]
      rw [takeAll, List.foldl_cons, ← takeAll, takeAt_chain]

end ReceiverChain

/-! ### The law of receivers -/

namespace Receiver

/-- Receivers wrapped around the one in front of a listener, after steps at any of them.  The
listener was told of all errors, of the warnings unless it is quiet and of the infos if it is
verbose, once each and in their order, and was asked once by each poll; a poll cancels the run if
and only if the listener says so.  A receiver has seen an error if and only if one was given to it
or to a receiver behind it, and the first one has seen a warning if and only if there was one.
The chain of receivers that the compiler works with does the same. -/
theorem outcome_of_run (quiet verbose : Bool) (relays : Nat) (steps : List (Nat × Step)) :
    (∀ listener,
      let after := (Session.start quiet verbose relays).run listener steps
      after.calls = Session.callsOf quiet verbose steps ∧
        after.receiver.hadErrors = (List.range (relays + 1)).map (fun place =>
          steps.any fun step => place ≤ step.1 && step.2.isError) ∧
        after.receiver.front.hadWarning = steps.any (fun step => step.2.isWarning) ∧
        after.cancels = steps.mapIdx fun place step =>
          step.2.isPoll && listener (Session.callsOf quiet verbose (steps.take place))) ∧
      ∀ cancelAfter,
        let after := (Session.start quiet verbose relays).run (cancelling cancelAfter) steps
        (ReceiverChain.ofLength (some { quiet, verbose, cancelAfter }) (relays + 1)).takeAll []
          steps = (after.cancels, after.chain cancelAfter) := by
  constructor
  · intro listener after
    have taken := Session.takes_run listener (Session.start quiet verbose relays) steps
    have front : (Session.start quiet verbose relays).receiver.front = { quiet, verbose } :=
      front_wrap quiet verbose relays
    refine ⟨?calls, ?hadErrors, ?hadWarning, ?cancels⟩
    case calls =>
      have calls := taken.calls
      rwa [front] at calls
    case hadErrors =>
      refine taken.hadErrors.trans (List.ext_getElem ?_ fun place _ _ => ?_)
      · simp [Session.start, hadErrors_wrap]
      · simp [Session.start, hadErrors_wrap]
    case hadWarning => simpa [front] using taken.hadWarning
    case cancels =>
      have cancels := taken.cancels
      rwa [front] at cancels
  · intro cancelAfter after
    have begins : (Session.start quiet verbose relays).chain cancelAfter =
        ReceiverChain.ofLength (some { quiet, verbose, cancelAfter }) (relays + 1) := by
      simp [Session.start, Session.chain, ReceiverChain.ofLength, front_wrap, hadErrors_wrap]
    rw [← begins]
    exact ReceiverChain.takeAll_chain cancelAfter (Session.start quiet verbose relays) steps

end Receiver

end Typeloom
