import Typeloom.Proofs.Model.Presentable
import Typeloom.Proofs.Schema.Walk
import Typeloom.Run.Program

/-!
# The course of a compilation

Everything up to the publication has a plain transcript, but that the listener may be told at its
very end that there is code.  There is something to publish only if no error was reported.
-/

namespace Typeloom

open Reporting Transcript

/-! ## Loading -/

namespace Loading

/-- Documents that are legible and have names are read without a fault. -/
theorem yields_readDocuments (documents : Table String Json.Members) :
    Yields (∀ entry ∈ documents, (∃ name, Uri.rootName entry.1 = .ok name) ∧
        SchemaReader.LegibleDocument entry.1 entry.2)
      (fun documents => ∀ document ∈ documents, document.Sound) (readDocuments documents) := by
  refine yields_mapM fun entry isEntry => ?_
  refine yields_after (yields_ofExcept fun legible => ?_) fun rootName => ?_
  · exact (legible entry isEntry).1.imp fun _ isName => ⟨isName, trivial⟩
  · exact (SchemaReader.yields_readDocument entry.1 rootName entry.2).mono
      (fun legible => (legible entry isEntry).2) fun _ _ => And.right

theorem scripted_loadLibrary (read : String → Except Fault (List UInt8))
    (directory sources : List String) : Scripted Vouches (loadLibrary read directory sources) :=
  (Forest.scripted_load read directory sources).vouches_bind rfl fun forest =>
    (yields_readDocuments forest.documents).reports.unless (fun documents => some { documents })
      fun _ _ => rfl

/-- There is a model only if no error is reported. -/
theorem scripted_loadModel (read : String → Except Fault (List UInt8))
    (directory sources : List String) (request : Except Fault Analysis.Request) :
    Scripted Vouches (loadModel read directory sources request) :=
  (scripted_loadLibrary read directory sources).vouches_bind rfl fun library =>
    scripted_vouches_ofExcept fun asked =>
      (Analysis.yields_analyze library asked).reports.unless (fun state => some state.model)
        fun _ _ => rfl

end Loading

/-! ## Generating -/

namespace Extension

/-- An extension does nothing on its channel but report. -/
def OnlyReports (extension : Extension) : Prop :=
  ∀ outline, Reports (extension.apply outline)

theorem onlyReports_frozenClasses : frozenClasses.OnlyReports :=
  fun _ => reports_pure _

theorem onlyReports_of_mem_standardExtensions {extension : Extension}
    (isStandard : extension ∈ Options.standardExtensions) : extension.OnlyReports := by
  obtain rfl := List.mem_singleton.mp isStandard
  exact onlyReports_frozenClasses

theorem reports_applyAll {extensions : List Extension}
    (onlyReport : ∀ extension ∈ extensions, extension.OnlyReports) (outline : Outline) :
    Reports (applyAll extensions outline) := by
  induction extensions generalizing outline with
  | nil => exact reports_pure _
  | cons extension rest ih =>
      obtain ⟨ofFirst, ofRest⟩ := List.forall_mem_cons.mp onlyReport
      refine (ofFirst outline).bind fun (changed, succeeded) => ?_
      cases succeeded with
      | true => exact ih ofRest changed
      | false => exact reports_pure none

/-- There is an outline only if no error is reported. -/
theorem scripted_outlineAfter {extensions : List Extension}
    (onlyReport : ∀ extension ∈ extensions, extension.OnlyReports) (outline : Outline) :
    Scripted Vouches (outlineAfter extensions outline) :=
  (reports_applyAll onlyReport outline).unless id fun _ _ => rfl

end Extension

namespace GeneratedCode

theorem reports_addDefinition (replacements : Replacements) (state : Outline × List TakenName)
    (definition : TypeDefinition) : Reports (addDefinition replacements state definition) := by
  refine (reports_ofExcept _).bind fun name => (reports_ofExcept _).bind fun package => ?_
  dsimp only
  split
  · exact (reports_report ..).bind fun _ => reports_pure _
  · exact reports_pure _

theorem reports_outlineOf (settings : GenerationSettings) (model : Model) :
    Reports (outlineOf settings model) := by
  refine (reports_ofExcept _).bind fun classes => ?_
  refine (reports_foldlM (fun state definition => ?_) _).bind fun _ => reports_pure _
  exact reports_addDefinition settings.replacements state definition

theorem scripted_ofModel (settings : GenerationSettings) (model : Model) :
    Scripted Vouches (ofModel settings model) :=
  (reports_outlineOf settings model).unless
    (fun outline => some { outline, files := settings.language.files outline }) fun _ _ => rfl

/-- There is code in the end only if no error is reported. -/
theorem scripted_generate (settings : GenerationSettings) {extensions : List Extension}
    (onlyReport : ∀ extension ∈ extensions, extension.OnlyReports) (model : Model) :
    Scripted Vouches (generate settings extensions model) := by
  refine (scripted_ofModel settings model).vouches_bind rfl fun code => ?_
  refine (Extension.scripted_outlineAfter onlyReport code.outline).vouches_bind rfl
    fun outline => ?_
  exact scripted_pure ⟨isPlain_nil, fun _ _ => rfl⟩

end GeneratedCode

/-! ## Compiling -/

/-- Whether code is generated in a mode. -/
def Mode.GeneratesCode (mode : Mode) : Prop :=
  mode = .code ∨ mode = .dryrun ∨ mode = .zip

namespace Compilation

variable {mode : Mode} {options : Options}

/-- What the listener is told when there is code. -/
def announcement (code : GeneratedCode) : Act :=
  .tell (.compiled code.outline code.files.length)

/-- What is done on the channel of a compilation in a mode, by what the compilation leads to. -/
def Course (mode : Mode) (transcript : Transcript) : Except Fault Product → Prop
  | .error _ => IsPlain transcript
  | .ok .nothing => IsPlain transcript
  | .ok (.text _) => IsCalm transcript
  | .ok (.code code) => mode.GeneratesCode ∧
      ∃ before, transcript = before ++ [announcement code] ∧ IsCalm before

theorem Course.append {first rest : Transcript} {result : Except Fault Product}
    (course : Course mode rest result) (isCalm : IsCalm first) :
    Course mode (first ++ rest) result := by
  match result, course with
  | .error _, isPlain => exact isPlain_append.mpr ⟨isCalm.1, isPlain⟩
  | .ok .nothing, isPlain => exact isPlain_append.mpr ⟨isCalm.1, isPlain⟩
  | .ok (.text _), isCalmRest => exact isCalm_append.mpr ⟨isCalm, isCalmRest⟩
  | .ok (.code code), ⟨generates, before, isLast, isCalmRest⟩ =>
      refine ⟨generates, first ++ before, ?_, isCalm_append.mpr ⟨isCalm, isCalmRest⟩⟩
      rw [isLast, List.append_assoc]

/-- A compilation fails. -/
def Fails (transcript : Transcript) (result : Except Fault Product) : Prop :=
  IsPlain transcript ∧ result = .ok .nothing

theorem scripted_nothing : Scripted Fails (pure .nothing) :=
  scripted_pure ⟨isPlain_nil, rfl⟩

theorem scripted_failWith (message : Message) : Scripted Fails (failWith message) :=
  Or.inl ⟨[.tell (.message message.text)], .ok .nothing, ⟨by simp [IsPlain, Act.IsPlain], rfl⟩,
    (ends_tell _).bind_last (ends_pure _)⟩

/-- A compilation goes on with a value that vouches for itself, and fails without one. -/
theorem scripted_bind {α : Type} {action : Reporting (Option α)}
    {next : Option α → Reporting Product} (scripted : Scripted Vouches action)
    (ofNone : Scripted Fails (next none))
    (ofSome : ∀ value, Scripted (Course mode) (next (some value))) :
    Scripted (Course mode) (action >>= next) := by
  refine Scripted.bind (scripted.mono fun transcript result ⟨isPlain, noError⟩ =>
    ⟨isPlain, ?value, ?fault⟩)
  case value =>
    rintro (- | value) isValue
    · refine ofNone.mono fun rest last ⟨isPlainRest, isNothing⟩ => ?_
      rw [isNothing]
      exact isPlain_append.mpr ⟨isPlain, isPlainRest⟩
    · exact (ofSome value).mono fun rest last course =>
        course.append ⟨isPlain, noError value isValue⟩
  case fault =>
    exact fun fault _ => isPlain

theorem scripted_after {α : Type} {action : Reporting α} {next : α → Reporting Product}
    (scripted : Scripted (fun transcript _ => IsCalm transcript) action)
    (ofNext : ∀ value, Scripted (Course mode) (next value)) :
    Scripted (Course mode) (action >>= next) := by
  refine Scripted.bind (scripted.mono fun transcript result isCalm =>
    ⟨isCalm.1, fun value _ => ?_, fun fault _ => isCalm.1⟩)
  exact (ofNext value).mono fun rest last course => course.append isCalm

theorem scripted_ofExcept {α : Type} {result : Except Fault α} {next : α → Reporting Product}
    (ofNext : ∀ value, result = .ok value → Scripted (Course mode) (next value)) :
    Scripted (Course mode) (ofExcept result >>= next) :=
  Scripted.bind (Reporting.scripted_ofExcept ⟨isPlain_nil, ofNext, fun _ _ => isPlain_nil⟩)

theorem scripted_tellProgress (message : Message) :
    Scripted (fun transcript _ => IsCalm transcript) (tellProgress options message) := by
  unfold tellProgress
  split
  · exact scripted_pure isCalm_nil
  · exact scripted_message message.text

theorem scripted_text (pieces : List (Except Fault String)) :
    Scripted (Course mode) (pure (.text pieces)) :=
  scripted_pure isCalm_nil

theorem scripted_compileForest (mode : Mode) (options : Options) (source : DocumentSource) :
    Scripted (Course mode) (compileForest source options) :=
  scripted_bind (Forest.scripted_load ..) scripted_nothing fun _ => scripted_text _

theorem scripted_compileContentModels (mode : Mode) (options : Options)
    (source : DocumentSource) :
    Scripted (Course mode) (compileContentModels source options) :=
  scripted_bind (Loading.scripted_loadLibrary ..) scripted_nothing fun _ => scripted_text _

theorem scripted_compileSignatures (mode : Mode) (options : Options) (model : Model) :
    Scripted (Course mode) (compileSignatures options model) :=
  scripted_bind (GeneratedCode.scripted_ofModel ..) (scripted_failWith _) fun _ => scripted_text _

variable {extensions : List Extension}

theorem scripted_compileCode (mode : Mode) (options : Options) (generates : mode.GeneratesCode)
    (onlyReport : ∀ extension ∈ extensions, extension.OnlyReports) (model : Model) :
    Scripted (Course mode) (compileCode options extensions model) := by
  refine scripted_bind (GeneratedCode.scripted_generate _ onlyReport model) (scripted_failWith _)
    fun code => ?_
  refine Or.inl ⟨[announcement code], .ok (.code code), ?_, (ends_tell _).bind_last (ends_pure _)⟩
  exact ⟨generates, [], rfl, isCalm_nil⟩

/-- A compilation keeps its course, whatever the extensions report. -/
theorem scripted_compile (source : DocumentSource) (options : Options)
    (onlyReport : ∀ extension ∈ extensions, extension.OnlyReports) :
    Scripted (Course options.mode) (compile source options extensions) := by
  refine scripted_after (scripted_tellProgress _) fun _ => ?_
  have ofModel (generates : options.mode ≠ .signature → options.mode.GeneratesCode) :
      Scripted (Course options.mode) (compileModel source options extensions) := by
    refine scripted_bind (Loading.scripted_loadModel ..) (scripted_failWith _) fun model => ?_
    refine scripted_after (scripted_tellProgress _) fun _ => ?_
    split
    · exact scripted_compileSignatures _ options model
    · rename_i noSignature
      exact scripted_compileCode _ options (generates noSignature) onlyReport model
  split
  · exact scripted_compileForest _ options source
  · exact scripted_compileContentModels _ options source
  · rename_i noForest noContentModels
    refine ofModel fun noSignature => ?_
    cases isMode : options.mode <;> simp_all [Mode.GeneratesCode]

end Compilation

/-! ## Preparing -/

namespace Options

/-- What is known of options to which a command line leads: only extensions that come with the
compiler can be switched on, and code goes into a directory that is there. -/
structure Settled (optionSet : OptionSet) (system : FileSystem) (options : Options) : Prop where
  extensions : options.extensions ⊆ standardExtensions
  target : optionSet = .program → options.mode = .code →
    system.isDirectory options.target = .ok true

theorem settled_of_ofArguments {optionSet : OptionSet} {system : FileSystem} {words : List String}
    {arguments : Arguments} {language : TargetLanguage} {mode : Mode} {result : Options}
    (isResult : ofArguments optionSet system words arguments language mode = .ok result) :
    result.Settled optionSet system := by
  unfold ofArguments at isResult
  extract_lets target withConfig at isResult
  have ofConfig (config : Config) (isResult : withConfig config = .ok result) :
      result.Settled optionSet system := by
    obtain ⟨configured, -, isResult⟩ := exists_of_bind_eq_ok isResult
    obtain ⟨replacements, -, isResult⟩ := exists_of_bind_eq_ok isResult
    obtain ⟨proxy, -, isResult⟩ := exists_of_bind_eq_ok isResult
    obtain ⟨sources, -, isResult⟩ := exists_of_bind_eq_ok isResult
    extract_lets found finish withTarget at isResult
    have ofFinish (isResult : finish () = .ok result)
        (isDirectory : optionSet = .program → mode = .code →
          system.isDirectory target = .ok true) : result.Settled optionSet system := by
      cases isResult
      exact ⟨List.filter_subset_self _, isDirectory⟩
    split at isResult
    · obtain ⟨_, isThrown, -⟩ := exists_of_bind_eq_ok isResult
      cases isThrown
    · unfold withTarget at isResult
      split at isResult
      · obtain ⟨isThere, isFound, isResult⟩ := exists_of_bind_eq_ok isResult
        split at isResult
        · obtain ⟨_, isThrown, -⟩ := exists_of_bind_eq_ok isResult
          cases isThrown
        · refine ofFinish isResult fun _ _ => ?_
          cases isDirectory : system.isDirectory target with
          | error error => simp [isDirectory, Except.mapError] at isFound
          | ok answer => simp_all [Except.mapError]
      · rename_i notCode
        exact ofFinish isResult fun isProgram isCode => absurd (by simp [isProgram, isCode]) notCode
  split at isResult
  all_goals
    obtain ⟨config, -, isResult⟩ := exists_of_bind_eq_ok isResult
    exact ofConfig config isResult

theorem settled_of_parse {optionSet : OptionSet} {system : FileSystem} {words : List String}
    {options : Options} (isParsed : parse optionSet system words = .ok (.options options)) :
    options.Settled optionSet system := by
  unfold parse at isParsed
  extract_lets reading at isParsed
  clear_value reading
  split at isParsed
  · cases isParsed
  · unfold apply at isParsed
    split at isParsed
    · cases isParsed
    · split at isParsed
      · rename_i isResult
        cases isParsed
        exact settled_of_ofArguments isResult
      · cases isParsed
      · cases isParsed

theorem extensions_of_parse {optionSet : OptionSet} {system : FileSystem} {words : List String}
    {options : Options} (isParsed : parse optionSet system words = .ok (.options options)) :
    options.extensions ⊆ standardExtensions :=
  (settled_of_parse isParsed).extensions

end Options

namespace Program

/-- What is done on the channel before anything is published, by what there is to publish. -/
def Course (arguments : List String) (system : FileSystem) (transcript : Transcript) :
    Except Fault (Option (Options × Product)) → Prop
  | .error _ => IsPlain transcript
  | .ok none => IsPlain transcript
  | .ok (some (options, product)) =>
      Options.parse .program system arguments = .ok (.options options) ∧
        Compilation.Course options.mode transcript (.ok product)

theorem scripted_tellAll (messages : List String) :
    Scripted (fun transcript _ => IsCalm transcript) (tellAll messages) :=
  scripted_calm_forM fun _ => scripted_message _

theorem scripted_tellProblem (problem : String) (extensions : List Extension) :
    Scripted (fun transcript _ => IsCalm transcript) (tellProblem problem extensions) := by
  unfold tellProblem
  split
  · exact (scripted_tellAll _).calm_bind fun _ => scripted_tellAll _
  · exact scripted_tellAll _

theorem scripted_warnAboutPackage (options : Options) :
    Scripted (fun transcript _ => IsCalm transcript) (warnAboutPackage options) := by
  unfold warnAboutPackage
  split
  · exact scripted_tellAll _
  · exact scripted_pure isCalm_nil

theorem onlyReports_of_member? {found : ExtensionModule} {name : String} {extension : Extension}
    (isMember : found.member? name = some (.extension extension)) : extension.OnlyReports := by
  unfold ExtensionModule.member? ExtensionModule.meaning at isMember
  split at isMember
  · split at isMember
    · cases isMember
    · split at isMember
      · cases isMember
        exact Extension.onlyReports_frozenClasses
      · cases isMember
  · split at isMember <;> cases isMember

theorem onlyReports_of_load {system : FileSystem} {directories : List Path}
    {specification name : String} {extension : Extension}
    (isLoaded : ExtensionModule.load system directories specification =
      .ok (name, .extension extension)) : extension.OnlyReports := by
  unfold ExtensionModule.load at isLoaded
  extract_lets moduleName memberName finish at isLoaded
  split at isLoaded
  · obtain ⟨_, isThrown, -⟩ := exists_of_bind_eq_ok isLoaded
    cases isThrown
  · obtain ⟨found, -, isLoaded⟩ := exists_of_bind_eq_ok isLoaded
    split at isLoaded
    · rename_i isMember
      obtain ⟨-, rfl⟩ := Prod.mk.inj (Except.ok.inj isLoaded)
      exact onlyReports_of_member? isMember
    · cases isLoaded

theorem onlyReports_of_loadExtensions {system : FileSystem} {directories : List Path}
    {specifications : List String} {extensions : List Extension} {problem? : Option String}
    (areLoaded : loadExtensions system directories specifications = .ok (extensions, problem?)) :
    ∀ extension ∈ extensions, extension.OnlyReports := by
  induction specifications generalizing extensions problem? with
  | nil =>
      cases areLoaded
      simp
  | cons specification rest ih =>
      unfold loadExtensions at areLoaded
      split at areLoaded
      · cases areLoaded
        simp
      · cases areLoaded
        simp
      · cases areLoaded
      · rename_i isFirst
        obtain ⟨⟨others, problem?⟩, areOthers, areLoaded⟩ := exists_of_bind_eq_ok areLoaded
        cases areLoaded
        exact List.forall_mem_cons.mpr ⟨onlyReports_of_load isFirst, ih areOthers⟩

theorem scripted_compileWithExtensions (source : DocumentSource) {options : Options}
    (onlyReport : ∀ extension ∈ options.extensions, extension.OnlyReports) :
    Scripted (Compilation.Course options.mode) (compileWithExtensions source options) := by
  refine Compilation.scripted_ofExcept fun (extensions, problem?) areLoaded => ?_
  cases problem? with
  | some problem =>
      exact Compilation.scripted_after (scripted_tellProblem _ _) fun _ => scripted_pure isPlain_nil
  | none =>
      refine Compilation.scripted_compile source options fun extension occurs => ?_
      rcases List.mem_append.mp occurs with isSwitchedOn | isLoaded
      · exact onlyReport extension isSwitchedOn
      · exact onlyReports_of_loadExtensions areLoaded extension isLoaded

theorem scripted_compileAs {options : Options}
    (onlyReport : ∀ extension ∈ options.extensions, extension.OnlyReports) (system : FileSystem)
    (remote : Table String (List UInt8)) :
    Scripted (Compilation.Course options.mode) (compileAs options system remote) := by
  refine Compilation.scripted_after (scripted_attune _ _) fun _ => ?_
  refine Compilation.scripted_after (scripted_warnAboutPackage options) fun _ => ?_
  exact Compilation.scripted_ofExcept fun connection _ =>
    scripted_compileWithExtensions _ onlyReport

/-- A run keeps its course until it publishes. -/
theorem scripted_prepare (arguments : List String) (system : FileSystem)
    (remote : Table String (List UInt8)) :
    Scripted (Course arguments system) (prepare arguments system remote) := by
  have nothing {action : Reporting Unit}
      (scripted : Scripted (fun transcript _ => IsCalm transcript) action) :
      Scripted (Course arguments system) (action >>= fun _ => pure none) := by
    refine Scripted.bind (scripted.mono fun transcript result isCalm =>
      ⟨isCalm.1, fun value _ => scripted_pure ?_, fun fault _ => isCalm.1⟩)
    rw [List.append_nil]
    exact isCalm.1
  unfold prepare
  split
  · exact nothing (scripted_tellAll _)
  · refine Scripted.bind (scripted_ofExcept ⟨isPlain_nil, fun outcome isParsed => ?_,
      fun _ _ => isPlain_nil⟩)
    match outcome, isParsed with
    | .problem problem, _ => exact nothing (scripted_tellProblem _ _)
    | .help blocks, _ => exact nothing (scripted_tellAll _)
    | .options options, isParsed =>
        have onlyReport extension (isSwitchedOn : extension ∈ options.extensions) :
            extension.OnlyReports :=
          Extension.onlyReports_of_mem_standardExtensions
            (Options.extensions_of_parse isParsed isSwitchedOn)
        refine Scripted.bind_pure ((scripted_compileAs onlyReport system remote).mono
          fun transcript result course => ?_)
        cases result with
        | error fault => exact course
        | ok product => exact ⟨isParsed, course⟩

/-- What is prepared if the command line leads to options. -/
theorem ends_prepare {arguments : List String} {system : FileSystem}
    {remote : Table String (List UInt8)} {options : Options} {transcript : Transcript}
    {product : Product} (noVersion : versionMessage? arguments = none)
    (parses : Options.parse .program system arguments = .ok (.options options))
    (ends : Ends (compileAs options system remote) transcript (.ok product)) :
    Ends (prepare arguments system remote) transcript (.ok (some (options, product))) := by
  unfold prepare
  rw [noVersion, parses]
  refine Ends.after_ofExcept ?_
  exact ends.bind_last (ends_pure _)

/-! ### A run on one document -/

/-- A directory with a document that holds nothing. -/
def emptyDocument : FileSystem :=
  { current := ["work"], directories := [["work"]]
    files := [(["work", "a.json"], { content := .bytes "\x7b\x7d".toUTF8.toList })] }

/-- The options that a command line leads to, if it is understood. -/
def optionsOf? : Except Fault OptionsOutcome → Option Options
  | .ok (.options options) => some options
  | _ => none

theorem eq_of_optionsOf? {parsed : Except Fault OptionsOutcome} {options : Options}
    (isSome : optionsOf? parsed = some options) : parsed = .ok (.options options) := by
  rcases parsed with fault | found | problem | blocks
  case ok.options => rw [Option.some.inj isSome]
  all_goals cases isSome

theorem parse_emptyDocument : ∃ options,
    Options.parse .program emptyDocument ["--mode=forest", "a.json"] = .ok (.options options) ∧
      (options.sources, options.mode, options.moduleNames) = (["a.json"], .forest, []) ∧
      (options.package, options.proxy) = (none, none) := by
  have parsed :
      (optionsOf? (Options.parse .program emptyDocument ["--mode=forest", "a.json"])).any
        (fun options => decide
          ((options.sources, options.mode, options.moduleNames) = (["a.json"], .forest, []) ∧
            (options.package, options.proxy) = (none, none))) = true := by
    decide +kernel
  obtain ⟨options, isSome, areOptions⟩ := (Option.any_eq_true _ _).mp parsed
  exact ⟨options, eq_of_optionsOf? isSome, of_decide_eq_true areOptions⟩

theorem ends_compileAs_emptyDocument {options : Options}
    (areOptions : (options.sources, options.mode, options.moduleNames) =
      (["a.json"], .forest, []))
    (noOptions : (options.package, options.proxy) = (none, none)) :
    ∃ transcript text,
      Ends (compileAs options emptyDocument []) transcript (.ok (.text [.ok text])) := by
  simp only [Prod.mk.injEq] at areOptions noOptions
  obtain ⟨areSources, isMode, noModules⟩ := areOptions
  obtain ⟨noPackage, noProxy⟩ := noOptions
  let source : DocumentSource :=
    { system := emptyDocument, remote := [], connection := { isOpen := true } }
  let forest : Forest :=
    { documents := [("file:///work/a.json", [])], roots := ["file:///work/a.json"] }
  have loads : Ends (Forest.load source.read source.system.current ["a.json"]) [.poll]
      (.ok (some forest)) :=
    Forest.ends_load_alone (by decide +kernel) (by decide +kernel) (by decide +kernel)
  have progress : ∃ transcript,
      Ends (Compilation.tellProgress options .parsingSchema) transcript (.ok ()) := by
    unfold Compilation.tellProgress
    split
    · exact ⟨_, ends_pure ()⟩
    · exact ⟨_, ends_tell _⟩
  obtain ⟨transcript, ends⟩ := progress
  refine ⟨[.attune options.quiet options.verbose] ++ (transcript ++ [.poll]), forest.dump,
    (ends_attune _ _).bind ?_⟩
  unfold warnAboutPackage
  have opens : Connection.opened {} = .ok { isOpen := true } := rfl
  have loadsNone : loadExtensions source.system options.modulePath [] = .ok ([], none) := rfl
  rw [if_neg (by simp [noPackage]), pure_bind, noProxy, opens]
  refine Ends.after_ofExcept ?_
  unfold compileWithExtensions
  rw [noModules, loadsNone]
  refine Ends.after_ofExcept (ends.bind ?_)
  rw [isMode]
  unfold Compilation.compileForest
  rw [areSources]
  exact loads.bind_last (ends_pure _)

end Program

end Typeloom
