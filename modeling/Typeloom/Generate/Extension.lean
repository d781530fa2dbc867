import Typeloom.Report.Reporting

/-!
# Extensions

An extension changes the outline after the classes have been named and before anything is
rendered.  It may report problems, and it may fail.
-/

namespace Typeloom

/-- A change of the outline that is switched on by an option of its own. -/
structure Extension where
  optionName : String
  usage : String
  /-- Change an outline, and say whether that succeeded. -/
  apply : Outline → Reporting (Outline × Bool)

namespace Extension

open Reporting

/-- Make the instances of every class immutable. -/
def frozenClasses : Extension where
  optionName := "x-frozen"
  usage := "  --x-frozen          :  generate immutable (frozen / sealed) classes"
  apply outline := return (outline.mapClasses fun entry => { entry with frozen := true }, true)

def ofChange (change : Outline → Outline) (succeeds : Bool) : Extension where
  optionName := ""
  usage := ""
  apply outline := return (change outline, succeeds)

def reportMessage (severity : Severity) (message : String) (succeeds : Bool) : Extension where
  optionName := ""
  usage := ""
  apply outline := do
    report severity message none none
    return (outline, succeeds)

/-- Apply extensions one after the other.  The first one that fails ends the generation. -/
def applyAll : List Extension → Outline → Reporting (Option Outline)
  | [], outline => return some outline
  | extension :: rest, outline => do
      let (outline, succeeded) ← extension.apply outline
      if succeeded then applyAll rest outline else return none

/-- The outline as the extensions leave it, or nothing if one of them fails or an error is
reported. -/
def outlineAfter (extensions : List Extension) (outline : Outline) :
    Reporting (Option Outline) := do
  let (result, hadError) ← watching (applyAll extensions outline)
  return if hadError then none else result

end Extension

end Typeloom
