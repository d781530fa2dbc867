import Typeloom.Generate.Outline
import Typeloom.Report.Diagnostic

/-!
# Channels

A channel leads to the listener of a run.  It records what the listener is told and how often it
is asked whether the run is to be cancelled.  Warnings are withheld from a quiet listener and
infos from one that is not verbose, but whether there was an error or a warning is remembered in
either case.
-/

namespace Typeloom

inductive Event where
  | message (text : String)
  /-- A file is about to be written: its path, its number and the number of all files. -/
  | generated (path : String) (index total : Nat)
  /-- A diagnostic, and as what it is reported. -/
  | diagnosed (notice : Severity) (diagnostic : Diagnostic)
  /-- The code has been generated: its outline and the number of its files. -/
  | compiled (outline : Outline) (fileCount : Nat)
deriving Inhabited, Repr

/-- The way to a listener. -/
structure Channel where
  quiet : Bool := false
  verbose : Bool := false
  /-- The number of polls that are answered with no, if the listener cancels at all. -/
  cancelAfter : Option Nat := none
  /-- The number of polls so far. -/
  polls : Nat := 0
  events : List Event := []
  errors : Nat := 0
  hadWarning : Bool := false
deriving Inhabited, Repr

namespace Channel

def tell (channel : Channel) (event : Event) : Channel :=
  { channel with events := channel.events ++ [event] }

/-- Whether the listener is told of diagnostics that are reported as the given severity. -/
def passes (channel : Channel) : Severity → Bool
  | .info => channel.verbose
  | .warning => !channel.quiet
  | _ => true

/-- Report a diagnostic as the given severity. -/
def notify (channel : Channel) (notice : Severity) (diagnostic : Diagnostic) : Channel :=
  let noted :=
    { channel with
      errors := if notice.isError then channel.errors + 1 else channel.errors
      hadWarning := channel.hadWarning || notice = .warning }
  if channel.passes notice then noted.tell (.diagnosed notice diagnostic) else noted

theorem errors_notify (channel : Channel) (notice : Severity) (diagnostic : Diagnostic) :
    (channel.notify notice diagnostic).errors =
      if notice.isError then channel.errors + 1 else channel.errors := by
  unfold notify
  dsimp only
  split <;> rfl

/-- The listener is told of every error. -/
theorem notify_of_isError {notice : Severity} (isError : notice.isError = true)
    (diagnostic : Diagnostic) (channel : Channel) :
    channel.notify notice diagnostic =
      { channel with
        errors := channel.errors + 1
        events := channel.events ++ [.diagnosed notice diagnostic] } := by
  cases notice <;> simp_all [notify, Severity.isError, passes, tell]

/-- Ask the listener whether the run is to be cancelled. -/
def poll (channel : Channel) : Bool × Channel :=
  (match channel.cancelAfter with
    | some limit => limit ≤ channel.polls
    | none => false,
    { channel with polls := channel.polls + 1 })

end Channel

end Typeloom
