import Typeloom.Fault

/-!
# Diagnostics

A diagnostic is one problem found while compiling: how serious it is, what it is, and as much as
is known about where it is.
-/

namespace Typeloom

inductive Severity where
  | info
  | warning
  | error
  | fatal
deriving DecidableEq, Repr, Inhabited

def Severity.label : Severity → String
  | .info => "INFO"
  | .warning => "WARNING"
  | .error => "ERROR"
  | .fatal => "FATAL"

def Severity.isError : Severity → Bool
  | .error => true
  | .fatal => true
  | _ => false

structure Diagnostic where
  severity : Severity
  message : String
  systemId : Option String := none
  line : Option Int := none
  column : Option Int := none
  /-- The path of the offending node in the document. -/
  location : Option String := none
deriving DecidableEq, Repr, Inhabited

/-- What a diagnostic is made from when something fails. -/
inductive Cause where
  /-- A text is not JSON. -/
  | malformed (malformation : Json.Malformation)
  /-- The system gives a reason, and perhaps the path it speaks of. -/
  | system (reason : String) (path : Option String)
  /-- Something else, with its description and its name. -/
  | other (description name : String)
deriving DecidableEq, Repr, Inhabited

def SystemError.cause : SystemError → Cause
  | .file problem path => .system problem.reason (some path)
  | error => .other error.describe ""

namespace Diagnostic

/-- The message of a diagnostic about a failure of the system: the path is named, or else the
document, if there is one. -/
def systemMessage (reason : String) (path systemId : Option String) : String :=
  match path.orElse fun _ => systemId with
  | some target => if target.isEmpty then reason else reason ++ ": " ++ target
  | none => reason

/-- The diagnostic for a failure. -/
def ofCause (cause : Cause) (severity : Severity) (systemId : Option String) : Diagnostic :=
  match cause with
  | .malformed malformation =>
      { severity, message := malformation.message, systemId
        line := some malformation.line, column := some malformation.column }
  | .system reason path => { severity, message := systemMessage reason path systemId, systemId }
  | .other description name =>
      { severity, message := if description.isEmpty then name else description, systemId }

/-- Where the problem is, if anything is known about that. -/
def place (diagnostic : Diagnostic) : Option String :=
  diagnostic.systemId.map fun systemId =>
    match diagnostic.line with
    | some line => "line " ++ toString line ++ " of " ++ systemId
    | none => systemId ++ diagnostic.location.getD ""

def render (diagnostic : Diagnostic) : String :=
  let text := "[" ++ diagnostic.severity.label ++ "] " ++ diagnostic.message
  match diagnostic.place with
  | some place => if place.isEmpty then text else text ++ "\n  " ++ place
  | none => text

end Diagnostic

end Typeloom
