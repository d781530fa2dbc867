import Typeloom.Model.Analysis
import Typeloom.Schema.Forest
import Typeloom.Schema.Reader

/-!
# Loading a model

Loading reads the documents of the sources, turns them into a library and analyzes it.  It leads
to nothing if any error is reported on the way.
-/

namespace Typeloom

namespace Loading

open Reporting

def readDocuments (documents : Table String Json.Members) : Reporting (List Document) :=
  documents.mapM fun (systemId, members) => do
    let rootName ← ofExcept (Uri.rootName systemId)
    SchemaReader.readDocument systemId rootName (.object members)

def loadLibrary (read : String → Except Fault (List UInt8)) (directory sources : List String) :
    Reporting (Option Library) := do
  match ← Forest.load read directory sources with
  | none => return none
  | some forest =>
      let (documents, hadError) ← watching (readDocuments forest.documents)
      return if hadError then none else some { documents }

/-- Load the model of the sources.  What the analysis is asked to do is settled only when there is
a library. -/
def loadModel (read : String → Except Fault (List UInt8)) (directory sources : List String)
    (request : Except Fault Analysis.Request) : Reporting (Option Model) := do
  match ← loadLibrary read directory sources with
  | none => return none
  | some library =>
      let request ← ofExcept request
      let (state, hadError) ← watching (Analysis.analyze library request)
      return if hadError then none else some state.model

/-- A model that is loaded stems from an analysis of a library that reports no error. -/
theorem exists_analysis_of_loadModel {read : String → Except Fault (List UInt8)}
    {directory sources : List String} {request : Except Fault Analysis.Request}
    {channel after : Channel} {model : Model}
    (loads : onChannel (loadModel read directory sources request) channel =
      (.ok (some model), after)) :
    ∃ library between asked result,
      onChannel (loadLibrary read directory sources) channel = (.ok (some library), between) ∧
      request = .ok asked ∧
      onChannel (Analysis.analyze library asked) between = (.ok result, after) ∧
      result.model = model ∧ after.errors ≤ between.errors := by
  obtain ⟨library?, between, ofLibrary, rest⟩ := exists_of_onChannel_bind loads
  cases library? with
  | none => cases rest
  | some library =>
      obtain ⟨asked, _, isAsked, rest⟩ := exists_of_onChannel_bind rest
      obtain ⟨rfl, rfl⟩ := of_onChannel_ofExcept isAsked
      obtain ⟨result, returned, isModel, noError⟩ :=
        exists_of_onChannel_unless rest fun _ _ => rfl
      exact ⟨library, _, asked, result, ofLibrary, rfl, returned,
        Option.some.inj isModel, noError⟩

end Loading

end Typeloom
