import Typeloom.Proofs.Report.Essence
import Typeloom.Proofs.Run.Publication
import Typeloom.Proofs.Run.Course

/-!
# Verbosity

Whether a run is quiet or verbose decides how much its listener is told, and nothing else: neither
what is read and written, nor which errors are reported, nor when the listener is asked whether the
run is to be cancelled.
-/

namespace Typeloom

open Reporting Transcript

variable {options other : Options}

namespace Compilation

theorem alike_tellProgress (options other : Options) (message : Message) :
    Alike (tellProgress options message) (tellProgress other message) := by
  have ends (options : Options) : ∃ transcript, essence transcript = [] ∧
      Ends (tellProgress options message) transcript (.ok ()) := by
    unfold tellProgress
    split
    · exact ⟨[], rfl, ends_pure ()⟩
    · exact ⟨_, rfl, ends_tell _⟩
  obtain ⟨transcript, isEmpty, isFirst⟩ := ends options
  obtain ⟨transcript', isEmpty', isSecond⟩ := ends other
  exact Or.inl ⟨transcript, transcript', .ok (), isEmpty.trans isEmpty'.symm, isFirst, isSecond⟩

/-- Compilations are alike if their options differ only in verbosity. -/
theorem alike_compile (same : options.SameUpToVerbosity other) (source : DocumentSource)
    {extensions : List Extension}
    (onlyReport : ∀ extension ∈ extensions, extension.OnlyReports) :
    Alike (compile source options extensions) (compile source other extensions) := by
  obtain ⟨quiet, verbose, arguments, -⟩ := same
  refine (alike_tellProgress options _ _).bind fun _ => ?_
  have ofModel : Alike (compileModel source options extensions)
      (compileModel source { options with quiet, verbose, arguments } extensions) := by
    refine (Loading.scripted_loadModel ..).alike.bind fun model? => ?_
    cases model? with
    | none => exact (scripted_failWith _).alike
    | some model =>
        refine (alike_tellProgress options _ _).bind fun _ => ?_
        dsimp only
        split
        · exact (scripted_compileSignatures .signature options model).alike
        · exact (scripted_compileCode .code options (Or.inl rfl) onlyReport model).alike
  dsimp only
  split
  · exact (scripted_compileForest .forest options source).alike
  · exact (scripted_compileContentModels .gbind options source).alike
  · exact ofModel

end Compilation

namespace Program

theorem alike_compileWithExtensions (same : options.SameUpToVerbosity other)
    (source : DocumentSource)
    (onlyReport : ∀ extension ∈ options.extensions, extension.OnlyReports) :
    Alike (compileWithExtensions source options) (compileWithExtensions source other) := by
  have compiles {extensions : List Extension}
      (onlyReport : ∀ extension ∈ extensions, extension.OnlyReports) :=
    Compilation.alike_compile same source onlyReport
  obtain ⟨quiet, verbose, arguments, -⟩ := same
  refine alike_ofExcept_bind fun (extensions, problem?) areLoaded => ?_
  cases problem? with
  | some problem =>
      exact (scripted_tellProblem _ _).alike.bind fun _ => (reports_pure _).alike
  | none =>
      refine compiles fun extension occurs => ?_
      rcases List.mem_append.mp occurs with isSwitchedOn | isLoaded
      · exact onlyReport extension isSwitchedOn
      · exact onlyReports_of_loadExtensions areLoaded extension isLoaded

theorem alike_compileAs (same : options.SameUpToVerbosity other)
    (onlyReport : ∀ extension ∈ options.extensions, extension.OnlyReports) (system : FileSystem)
    (remote : Table String (List UInt8)) :
    Alike (compileAs options system remote) (compileAs other system remote) := by
  have compiles (source : DocumentSource) := alike_compileWithExtensions same source onlyReport
  obtain ⟨quiet, verbose, arguments, -⟩ := same
  refine Alike.bind (Or.inl ⟨[.attune options.quiet options.verbose], [.attune quiet verbose],
    .ok (), rfl, ends_attune _ _, ends_attune _ _⟩) fun _ => ?_
  refine (scripted_warnAboutPackage options).alike.bind fun _ => ?_
  refine (reports_ofExcept _).alike.bind fun connection => compiles _

/-- Run with the given options. -/
def carryOut (options : Options) (remote : Table String (List UInt8)) (site : Site) :
    Except Fault Exit × Site :=
  let compiling : Reporting (Option (Options × Product)) := do
    return some (options, ← compileAs options site.system remote)
  conclude site (compiling.onChannel site.channel)

theorem carryOut_eq (options : Options) (remote : Table String (List UInt8)) (site : Site) :
    carryOut options remote site =
      conclude site
        (match onChannel (compileAs options site.system remote) site.channel with
        | (.ok product, channel) => (.ok (some (options, product)), channel)
        | (.error stop, channel) => (.error stop, channel)) := by
  rw [carryOut, onChannel_bind]
  rcases onChannel (compileAs options site.system remote) site.channel with ⟨stop | product, after⟩
  · rfl
  · rfl

/-- A run carries out the options that its command line leads to. -/
theorem run_eq_carryOut {arguments : List String} {site : Site}
    (noVersion : versionMessage? arguments = none)
    (parses : Options.parse .program site.system arguments = .ok (.options options))
    (remote : Table String (List UInt8)) :
    run arguments remote site = carryOut options remote site := by
  rw [run_eq, carryOut, prepare, noVersion, parses]
  rfl

/-- Two runs end in the same way and do the same.  Their listeners are told the same of errors and
of code. -/
structure SameOutcome (first second : Except Fault Exit × Site) : Prop where
  exit : first.1 = second.1
  polls : first.2.channel.polls = second.2.channel.polls
  events : first.2.channel.events.filter Event.isEssential =
    second.2.channel.events.filter Event.isEssential
  system : first.2.system = second.2.system
  output : first.2.output = second.2.output

theorem sameOutcome_of_essence {exit : Except Fault Exit} {first second : Channel}
    (same : first.essence = second.essence) (system : FileSystem) (output : StandardOutput) :
    SameOutcome (exit, { channel := first, system, output })
      (exit, { channel := second, system, output }) where
  exit := rfl
  polls := Channel.polls_eq_of_essence same
  events := by
    have sameEvents := congrArg Channel.events same
    exact sameEvents
  system := rfl
  output := rfl

theorem essence_of_isAnnouncement {transcript : Transcript} (isTold : IsAnnouncement transcript) :
    essence transcript = [] := by
  refine List.filter_eq_nil_iff.mpr fun act occurs => ?_
  obtain ⟨path, index, total, rfl⟩ := isTold act occurs
  exact Bool.false_ne_true

end Program

end Typeloom
