import Typeloom.Proofs.Failing
import Typeloom.Proofs.Run.Publication
import Typeloom.Proofs.Run.Course
import Typeloom.Proofs.Schema.Walk

/-!
# Runs on one document

A document without references is all that a run on it reads.  The rest of such a run can be
computed.
-/

namespace Typeloom

open Reporting Transcript

/-! ## Options -/

deriving instance DecidableEq for Config

namespace Options

/-- Whether options are the same and have no extensions. -/
def agrees (options other : Options) : Bool :=
  (options.arguments = other.arguments && options.sources = other.sources &&
    options.target = other.target && options.package = other.package &&
    options.language = other.language && options.mode = other.mode) &&
  (options.quiet = other.quiet && options.verbose = other.verbose &&
    options.debug = other.debug && options.noHeader = other.noHeader &&
    options.readOnly = other.readOnly && options.noNamespace = other.noNamespace) &&
  (options.encoding = other.encoding && options.config = other.config &&
    options.replacements = other.replacements && options.modulePath = other.modulePath &&
    options.moduleNames = other.moduleNames && options.proxy = other.proxy) &&
  options.extensions.isEmpty && other.extensions.isEmpty

theorem eq_of_agrees {options other : Options} (agree : options.agrees other = true) :
    options = other := by
  obtain ⟨⟩ := options
  obtain ⟨⟩ := other
  simp only [agrees, Bool.and_eq_true, decide_eq_true_eq, List.isEmpty_iff] at agree
  simp_all only

theorem parse_eq_of_agrees {parsed : Except Fault OptionsOutcome} {options : Options}
    (agree : (Program.optionsOf? parsed).any (·.agrees options) = true) :
    parsed = .ok (.options options) := by
  obtain ⟨found, isFound, agree⟩ := (Option.any_eq_true _ _).mp agree
  rw [Program.eq_of_optionsOf? isFound, eq_of_agrees agree]

end Options

/-! ## Loading -/

variable {directory : List String} {source systemId : String} {members : Json.Members}

theorem Reporting.Ends.unique {α : Type} {action other : Reporting α} {transcript : Transcript}
    {result : Except Fault α} (ends : Ends action transcript result)
    (otherEnds : Ends other transcript result) : action = other :=
  funext fun channel => (ends channel).trans (otherEnds channel).symm

section

variable {read : String → Except Fault (List UInt8)}
  (isAddress : Uri.ofSource directory source = .ok systemId)
  (isRead : Forest.reading read systemId = .ok (.ok members))
  (alone : Forest.externalReferences (.object members) = [])

include isAddress isRead alone

theorem Forest.load_alone :
    load read directory [source] = (do
      poll
      return some { documents := [(systemId, members)], roots := [systemId] }) :=
  (ends_load_alone isAddress isRead alone).unique (ends_poll.bind_last (ends_pure _))

/-- The model of documents that are there already. -/
def Loading.modelOf (documents : Table String Json.Members)
    (request : Except Fault Analysis.Request) : Reporting (Option Model) := do
  let (documents, hadError) ← watching (readDocuments documents)
  match (if hadError then none else some { documents } : Option Library) with
  | none => return none
  | some library =>
      let request ← ofExcept request
      let (state, hadError) ← watching (Analysis.analyze library request)
      return if hadError then none else some state.model

theorem Loading.loadModel_alone (request : Except Fault Analysis.Request) :
    loadModel read directory [source] request = (do
      poll
      modelOf [(systemId, members)] request) := by
  unfold loadModel loadLibrary
  rw [Forest.load_alone isAddress isRead alone]
  simp only [bind_assoc, pure_bind]
  rfl

end

namespace Program

/-- A compilation of one document to code reads it and asks the listener once. -/
theorem compileAs_alone {options : Options} {system : FileSystem}
    {remote : Table String (List UInt8)}
    (areOptions : (options.package, options.proxy, options.moduleNames, options.sources) =
      (none, none, [], [source]))
    (generates : options.mode.GeneratesCode)
    (isAddress : Uri.ofSource system.current source = .ok systemId)
    (isRead : Forest.reading
      (DocumentSource.read { system, remote, connection := { isOpen := true } }) systemId =
        .ok (.ok members))
    (alone : Forest.externalReferences (.object members) = []) :
    compileAs options system remote = (do
      modify fun channel => { channel with quiet := options.quiet, verbose := options.verbose }
      Compilation.tellProgress options .parsingSchema
      poll
      match ← Loading.modelOf [(systemId, members)] (Compilation.request options) with
      | none => Compilation.failWith .parseFailed
      | some model => do
          Compilation.tellProgress options .compilingSchema
          Compilation.compileCode options options.extensions model) := by
  simp only [Prod.mk.injEq] at areOptions
  obtain ⟨noPackage, noProxy, noModules, areSources⟩ := areOptions
  have opens : Connection.opened {} = .ok { isOpen := true } := rfl
  have loadsNone : loadExtensions system options.modulePath [] = .ok ([], none) := rfl
  have found {α : Type} (value : α) :
      (Reporting.ofExcept (.ok value) : Reporting α) = pure value := rfl
  unfold compileAs warnAboutPackage compileWithExtensions
  rw [if_neg (by simp [noPackage]), noProxy, opens, found, pure_bind, pure_bind, noModules]
  dsimp only
  rw [loadsNone, found, pure_bind]
  dsimp only
  rw [List.append_nil]
  unfold Compilation.compile Compilation.compileModel Compilation.loadModel
  rw [areSources, Loading.loadModel_alone isAddress isRead alone]
  cases isMode : options.mode with
  | forest => simp [Mode.GeneratesCode, isMode] at generates
  | gbind => simp [Mode.GeneratesCode, isMode] at generates
  | signature => simp [Mode.GeneratesCode, isMode] at generates
  | _ =>
      simp only [bind_assoc]
      rfl

/-- A run whose command line leads to options publishes what is compiled with them. -/
theorem run_of_compiles {arguments : List String} {options : Options} {site : Site}
    {remote : Table String (List UInt8)} {product : Product} {channel : Channel}
    (noVersion : versionMessage? arguments = none)
    (parses : Options.parse .program site.system arguments = .ok (.options options))
    (compiles : (compileAs options site.system remote).onChannel site.channel =
      (.ok product, channel)) :
    (prepare arguments site.system remote).onChannel site.channel =
        (.ok (some (options, product)), channel) ∧
      run arguments remote site =
        (Publishing.publish options product).run { site with channel } := by
  have prepares : (prepare arguments site.system remote).onChannel site.channel =
      (.ok (some (options, product)), channel) := by
    unfold prepare
    rw [noVersion, parses]
    change onChannel (compileAs options site.system remote >>= _) site.channel = _
    rw [onChannel_bind, compiles]
    rfl
  refine ⟨prepares, ?_⟩
  rw [run_eq, prepares]
  rfl

/-- A directory with one document. -/
def systemWith (document : String) : FileSystem :=
  { current := ["work"], directories := [["work"]]
    files := [(["work", "a.json"], { content := .bytes document.toUTF8.toList })] }

/-- The options of a run that writes the C# files of this document without a header. -/
def headlessOptions : Options :=
  { arguments := ["--no-header", "-l", "cs", "a.json"], sources := ["a.json"], target := ⟨0, []⟩
    package := none, language := .csharp, quiet := false, verbose := false, debug := false
    noHeader := true, readOnly := false, encoding := "utf-8", config := {}, replacements := []
    modulePath := [], moduleNames := [], proxy := none, extensions := [], mode := .code
    noNamespace := false }

/-- The code to which a compilation leads, if it does, with the channel after it. -/
def codeOf? : Except Stop Product × Channel → Option (GeneratedCode × Channel)
  | (.ok (.code code), channel) => some (code, channel)
  | _ => none

theorem exists_code_of_view {outcome : Except Stop Product × Channel} {β : Type}
    {view : GeneratedCode × Channel → β} {seen : β}
    (isSeen : (codeOf? outcome).map view = some seen) :
    ∃ code channel, outcome = (.ok (.code code), channel) ∧ view (code, channel) = seen := by
  rcases outcome with ⟨stop | product, channel⟩
  · cases isSeen
  · cases product with
    | code code => exact ⟨code, channel, rfl, Option.some.inj isSeen⟩
    | nothing => cases isSeen
    | text pieces => cases isSeen

end Program

end Typeloom
