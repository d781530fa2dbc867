import Typeloom.Report.Channel

/-!
# Chains of receivers

A receiver takes diagnostics, remembers whether there was an error and passes them on to the
receiver in front of it.  The first receiver of a chain leads to a listener, or nowhere.
-/

namespace Typeloom

/-- A chain of receivers. -/
structure ReceiverChain where
  /-- The way from the first receiver to the listener, if there is one. -/
  channel : Option Channel
  /-- For every receiver, from the first to the last, whether it has seen an error. -/
  latches : List Bool
deriving Inhabited, Repr

namespace ReceiverChain

/-- The chain of a number of receivers, none of which has seen anything. -/
def ofLength (channel : Option Channel) (length : Nat) : ReceiverChain :=
  { channel, latches := List.replicate length false }

/-- The latches after an error at the receiver of the given number, which all receivers in front
of it see too. -/
def latchUpTo : Nat → List Bool → List Bool
  | _, [] => []
  | 0, _ :: rest => true :: rest
  | index + 1, _ :: rest => true :: latchUpTo index rest

/-- Send a diagnostic to the receiver of the given number, as what the notice says. -/
def send (chain : ReceiverChain) (index : Nat) (notice : Severity) (diagnostic : Diagnostic) :
    ReceiverChain :=
  { channel := chain.channel.map fun channel => channel.notify notice diagnostic
    latches := if notice.isError then latchUpTo index chain.latches else chain.latches }

/-- Report a diagnostic to the receiver of the given number, as what it is. -/
def report (chain : ReceiverChain) (index : Nat) (diagnostic : Diagnostic) : ReceiverChain :=
  chain.send index diagnostic.severity diagnostic

/-- Ask the listener through the chain whether the run is to be cancelled. -/
def poll (chain : ReceiverChain) : Bool × ReceiverChain :=
  match chain.channel with
  | none => (false, chain)
  | some channel =>
      let (cancels, channel) := channel.poll
      (cancels, { chain with channel := some channel })

end ReceiverChain

end Typeloom
