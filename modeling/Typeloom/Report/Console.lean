import Typeloom.Report.Channel

/-!
# The console

A console shows status messages and diagnostics as texts.
-/

namespace Typeloom

namespace Event

/-- What is shown of an event among the status messages. -/
def statusText : Event → String
  | .message text => text ++ "\n"
  | .generated path _ _ => path ++ "\n"
  | _ => ""

/-- What is shown of an event among the diagnostics. -/
def reportText : Event → String
  | .diagnosed _ diagnostic => diagnostic.render ++ "\n\n"
  | _ => ""

def isError : Event → Bool
  | .diagnosed notice _ => notice.isError
  | _ => false

/-- What is shown of an event where status messages and diagnostics go to one place. -/
def consoleText (event : Event) : String :=
  event.statusText ++ event.reportText

end Event

/-- What a console has shown so far. -/
structure Console where
  /-- The status messages, unless they are dropped. -/
  status : Option String
  report : String := ""
  hasError : Bool := false
deriving DecidableEq, Repr, Inhabited

def Console.receive (console : Console) (event : Event) : Console :=
  { status := console.status.map fun shown => shown ++ event.statusText
    report := console.report ++ event.reportText
    hasError := console.hasError || event.isError }

end Typeloom
